import Netsim.Protocols.HttpAcceptance

/-!
# The body and its announced length

Header map, content length and body in step, in all ten states. What `std::stoul`
makes of the stored `Content-Length` is an invariant of the single byte; the rest
follows from what has been read.
-/

namespace Netsim.Protocols

open Foundation

/-- The states that come before `Body`. -/
def HttpState.beforeBody : HttpState → Bool
  | .Body | .Complete | .Error => false
  | _ => true

/-- The content length is that of the stored header. A refused value is stored too. -/
structure LengthInForce (p : HttpSim) : Prop where
  present : ∀ v, p.request.headers.find contentLengthKey = some v → p.state ≠ .Error →
    stoul v = some p.contentLength
  absent : p.request.headers.find contentLengthKey = none → p.contentLength = 0

/-- The body stands in the stream right after the LF that ends the head. -/
def FollowsHead (memory : Allocator) (s body : Bytes) : Prop :=
  ∃ before rest q, s = before ++ lf :: (body ++ rest) ∧
    consume (HttpSim.parseByte memory) HttpSim.fresh before = .ok q ∧ q.state = .ExpectBodyLF

/-- The state `p` after the stream `s`. -/
structure BodyInvariant (memory : Allocator) (s : Bytes) (p : HttpSim) : Prop where
  read : p.bodyBytesRead.toNat = p.request.body.length
  length : LengthInForce p
  early : p.state.beforeBody = true → p.request.body = []
  body : p.state = .Body → p.request.body.length < p.contentLength.toNat
  complete : p.state = .Complete →
    p.request.body.length = p.contentLength.toNat ∧ FollowsHead memory s p.request.body
  final : p.state = .Complete ∨ p.state = .Error →
    ∀ chunk, p.parseChunk memory chunk = .ok (p.isComplete, p)

variable {memory : Allocator} {s : Bytes} {p q : HttpSim} {ch : UInt8}

/-! ### Headers and length -/

theorem LengthInForce.keep (h : LengthInForce p) (hheaders : q.request.headers = p.request.headers)
    (hlength : q.contentLength = p.contentLength) (hstate : p.state = .Error → q.state = .Error) :
    LengthInForce q := by
  constructor
  · intro v hv hne
    rw [hheaders] at hv
    rw [hlength]
    exact h.present v hv fun he => hne (hstate he)
  · intro hv
    rw [hheaders] at hv
    rw [hlength]
    exact h.absent hv

/-- The end of a header line stores the header and its length together. -/
theorem LengthInForce.endHeader (h : LengthInForce p) (hstate : p.state ≠ .Error) :
    LengthInForce p.endHeader := by
  by_cases hkey : p.currentKey = contentLengthKey
  · cases hlength : stoul p.currentToken with
    | some n =>
        constructor
        · intro v hv _
          simp only [HttpSim.endHeader, hkey, if_true, hlength, UnorderedMap.find_set_self] at hv ⊢
          rw [← Option.some.inj hv, hlength]
        · intro hv
          simp [HttpSim.endHeader, hkey, hlength] at hv
    | none =>
        constructor
        · intro v _ hne
          exact absurd (by simp [HttpSim.endHeader, hkey, hlength, HttpSim.transitionTo]) hne
        · intro hv
          simp [HttpSim.endHeader, hkey, hlength, HttpSim.transitionTo] at hv
  · have hfind : (p.request.headers.set p.currentKey p.currentToken).find contentLengthKey =
        p.request.headers.find contentLengthKey := UnorderedMap.find_set_ne _ (Ne.symm hkey) _
    constructor
    · intro v hv _
      simp only [HttpSim.endHeader, hkey, if_false, hfind] at hv ⊢
      exact h.present v hv hstate
    · intro hv
      simp only [HttpSim.endHeader, hkey, if_false, hfind] at hv ⊢
      exact h.absent hv

theorem lengthInForce_fresh : LengthInForce HttpSim.fresh :=
  ⟨fun _ hv => by simp [HttpSim.fresh] at hv, fun _ => rfl⟩

/-- **One byte** keeps headers and length in step. -/
theorem LengthInForce.parseByte (h : LengthInForce p) (hstep : p.parseByte memory ch = .ok q) :
    LengthInForce q := by
  unfold HttpSim.parseByte at hstep
  cases hstate : p.state with
  | ExpectValueLF =>
      simp only [hstate, Except.ok.injEq] at hstep
      subst hstep
      split
      · exact h.endHeader (by simp [hstate])
      · exact h.keep rfl rfl (by simp [hstate])
  | ExpectBodyLF =>
      simp only [hstate] at hstep
      split at hstep
      · split at hstep
        · cases hreserve : reserve memory p.contentLength.toNat with
          | error exception =>
              rw [hreserve] at hstep
              cases hstep
          | ok _ =>
              rw [hreserve] at hstep
              obtain rfl := Except.ok.inj hstep
              exact h.keep rfl rfl (by simp [hstate])
        · obtain rfl := Except.ok.inj hstep
          exact h.keep rfl rfl (by simp [hstate])
      · obtain rfl := Except.ok.inj hstep
        exact h.keep rfl rfl (by simp [hstate])
  | _ =>
      simp only [hstate, Except.ok.injEq] at hstep
      subst hstep
      repeat' split
      all_goals exact h.keep rfl rfl (by simp [hstate])

/-! ### All ten states -/

theorem parseByte_final (h : p.state = .Complete ∨ p.state = .Error) (ch : UInt8) :
    p.parseByte memory ch = .ok p := by
  rcases h with h | h <;> simp [HttpSim.parseByte, h]

theorem parseChunk_final (h : p.state = .Complete ∨ p.state = .Error) (chunk : Bytes) :
    p.parseChunk memory chunk = .ok (p.isComplete, p) := by
  have hfinal : ∀ (q : HttpSim) (ch : UInt8),
      decide (q.state = .Complete ∨ q.state = .Error) = true → q.parseByte memory ch = .ok q :=
    fun q ch hq => parseByte_final (of_decide_eq_true hq) ch
  rw [HttpSim.parseChunk_eq, consume_done hfinal (decide_eq_true h)]
  rfl

/-- The body of a complete message follows its head. -/
theorem followsHead_message {head : Head} {n : UInt64} (hhead : head.Announces n) (b rest : Bytes) :
    FollowsHead memory (head.text ++ b ++ rest) b :=
  ⟨sectionText head.requestLine head.lines ++ (head.junk ++ [cr]), rest, _,
    by simp [Head.text], HttpSim.consume_head hhead, rfl⟩

theorem bodyInvariant_of_reads (hreads : Reads memory s p) (hlength : LengthInForce p) :
    BodyInvariant memory s p := by
  refine ⟨?_, hlength, ?_, ?_, ?_, fun h chunk => parseChunk_final h chunk⟩
  · cases hreads with
    | body hhead hn hb =>
        exact UInt64.toNat_ofNat_of_lt' (hb.trans (UInt64.toNat_lt _))
    | complete hhead hn hb => exact hb.symm
    | error _ hbody hread => rw [hbody, hread]; rfl
    | _ => rfl
  · intro hstate
    cases hreads with
    | error _ hbody => exact hbody
    | body => nomatch hstate
    | complete => nomatch hstate
    | _ => rfl
  · intro hstate
    cases hreads with
    | body _ _ hb => exact hb
    | error herror =>
        rw [herror] at hstate
        nomatch hstate
    | _ => nomatch hstate
  · intro hstate
    cases hreads with
    | complete hhead _ hb => exact ⟨hb, followsHead_message hhead _ _⟩
    | error herror =>
        rw [herror] at hstate
        nomatch hstate
    | _ => nomatch hstate

theorem consume_bodyInvariant (hrun : consume (HttpSim.parseByte memory) HttpSim.fresh s = .ok p) :
    BodyInvariant memory s p := by
  have hlength : LengthInForce p :=
    consume_invariant (motive := fun _ p => LengthInForce p) lengthInForce_fresh
      (fun _ _ _ _ h hstep => h.parseByte hstep) s hrun
  exact bodyInvariant_of_reads (HttpSim.reads_of_consume hrun) hlength

/-- **The body-length invariant.** It holds after any stream a new parser reads without
an exception, however it is cut, and after every one of its bytes. -/
theorem feed_bodyInvariant {chunks : List Bytes} {reports : List Bool}
    (h : feed (HttpSim.parseChunk memory) HttpSim.fresh chunks = .ok (reports, p)) :
    BodyInvariant memory chunks.flatten p ∧
      ∀ t, t <+: chunks.flatten →
        ∃ q, consume (HttpSim.parseByte memory) HttpSim.fresh t = .ok q ∧
          BodyInvariant memory t q := by
  have hrun := feed_consume (HttpSim.parseChunk_eq memory) chunks h
  refine ⟨consume_bodyInvariant hrun, ?_⟩
  rintro t ⟨u, htext⟩
  rw [← htext] at hrun
  obtain ⟨q, hq, -⟩ := consume_prefix hrun
  exact ⟨q, hq, consume_bodyInvariant hq⟩

/-- A head with two `Content-Length` lines, of which the last is in force. -/
def twiceAnnounced : Head :=
  ⟨postLine, [⟨contentLengthKey, ascii " 7"⟩, ⟨contentLengthKey, ascii " 2"⟩], []⟩

theorem announces_twiceAnnounced : Head.Announces twiceAnnounced 2 where
  requestLine := postLine_wellFormed
  lines := by
    intro l hl
    rcases List.mem_pair.mp hl with rfl | rfl
    · exact ⟨by decide +kernel, by decide +kernel⟩
    · exact ⟨by decide +kernel, by decide +kernel⟩
  junk := by decide +kernel
  contentLength := by decide +kernel

theorem feed_bodyInvariant_twiceAnnounced :
    ∃ reports p, feed (HttpSim.parseChunk .unlimited) HttpSim.fresh
        [twiceAnnounced.text, ascii "hi"] = .ok (reports, p) ∧
      BodyInvariant .unlimited [twiceAnnounced.text, ascii "hi"].flatten p ∧
        ∀ t, t <+: [twiceAnnounced.text, ascii "hi"].flatten →
          ∃ q, consume (HttpSim.parseByte .unlimited) HttpSim.fresh t = .ok q ∧
            BodyInvariant .unlimited t q := by
  have htext : [twiceAnnounced.text, ascii "hi"].flatten = twiceAnnounced.text ++ ascii "hi" := by
    simp
  have hmessage : consume (HttpSim.parseByte .unlimited) _ _ = _ :=
    consume_message announces_twiceAnnounced (b := ascii "hi") (by decide +kernel)
      (by decide +kernel)
  rw [← htext] at hmessage
  obtain ⟨reports, p, h⟩ := (feed_ok_iff (HttpSim.parseChunk_eq _) _ _).mpr ⟨_, hmessage⟩
  exact ⟨reports, p, h, feed_bodyInvariant h⟩

end Netsim.Protocols
