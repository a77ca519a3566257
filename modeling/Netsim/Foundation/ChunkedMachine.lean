import Mathlib.Data.List.Basic
import Mathlib.Data.List.Induction

/-!
# Machines fed in chunks

A machine consumes symbols one at a time, `step : σ → β → Except ε σ`, and may
fail. It is fed a stream cut into chunks and reports after each chunk whether it
is done. Where the cuts are cannot matter to the state; and when the machine
stays done, and is first done with the last symbol of a text, it reports so on
the chunk that holds that symbol and on no earlier one.
-/

namespace Foundation

variable {σ β ε : Type*}

/-- Consume the symbols of one chunk. -/
def consume (step : σ → β → Except ε σ) (s : σ) (chunk : List β) : Except ε σ :=
  chunk.foldlM step s

/-- Feed chunk after chunk, collecting the reports. -/
def feed (parse : σ → List β → Except ε (Bool × σ)) : σ → List (List β) →
    Except ε (List Bool × σ)
  | s, [] => .ok ([], s)
  | s, chunk :: chunks =>
      match parse s chunk with
      | .error e => .error e
      | .ok (report, s') =>
          match feed parse s' chunks with
          | .error e => .error e
          | .ok (reports, t) => .ok (report :: reports, t)

variable {step : σ → β → Except ε σ} {done : σ → Bool} {s t u : σ} {a b : List β}

@[simp] theorem consume_nil : consume step s [] = .ok s := rfl

theorem consume_cons {x : β} (h : step s x = .ok t) :
    consume step s (x :: b) = consume step t b := by
  unfold consume
  rw [List.foldlM_cons, h]
  rfl

theorem consume_append (h : consume step s a = .ok t) :
    consume step s (a ++ b) = consume step t b := by
  unfold consume at h ⊢
  rw [List.foldlM_append, h]
  rfl

theorem consume_cons_error {x : β} {e : ε} (h : step s x = .error e) :
    consume step s (x :: b) = .error e := by
  unfold consume
  rw [List.foldlM_cons, h]
  rfl

/-- After a failure nothing is consumed. -/
theorem consume_append_error {e : ε} (h : consume step s a = .error e) :
    consume step s (a ++ b) = .error e := by
  unfold consume at h ⊢
  rw [List.foldlM_append, h]
  rfl

/-- A prefix of what is consumed is consumed. -/
theorem consume_prefix (h : consume step s (a ++ b) = .ok u) :
    ∃ t, consume step s a = .ok t ∧ consume step t b = .ok u := by
  cases ha : consume step s a with
  | error e =>
      unfold consume at h ha
      rw [List.foldlM_append, ha] at h
      exact absurd h (by simp [Bind.bind, Except.bind])
  | ok t =>
      rw [consume_append ha] at h
      exact ⟨t, rfl, h⟩

/-- What every step keeps of the text read and the state holds after a run. -/
theorem consume_invariant {motive : List β → σ → Prop} (hnil : motive [] s)
    (hstep : ∀ a t x u, motive a t → step t x = .ok u → motive (a ++ [x]) u) :
    ∀ (a : List β) {t : σ}, consume step s a = .ok t → motive a t := by
  intro a
  induction a using List.reverseRecOn with
  | nil =>
      intro t h
      obtain rfl := Except.ok.inj h
      exact hnil
  | append_singleton a x ih =>
      intro t h
      obtain ⟨u, hu, hlast⟩ := consume_prefix h
      cases hx : step u x with
      | error e =>
          rw [consume_cons_error hx] at hlast
          nomatch hlast
      | ok v =>
          rw [consume_cons hx, consume_nil] at hlast
          obtain rfl := Except.ok.inj hlast
          exact hstep a u x v (ih hu) hx

/-- What is done stays done, unchanged. -/
theorem consume_done (habs : ∀ s x, done s = true → step s x = .ok s) (hs : done s = true) :
    ∀ b : List β, consume step s b = .ok s := by
  intro b
  induction b with
  | nil => rfl
  | cons x b ih => rw [consume_cons (habs s x hs), ih]

/-- The machine is not done after any proper prefix, when it is not done just
before the last symbol. -/
theorem not_done_of_prefix (habs : ∀ s x, done s = true → step s x = .ok s)
    (hlast : consume step s (a ++ b) = .ok u) (hu : done u = false)
    (ha : consume step s a = .ok t) : done t = false := by
  rw [consume_append ha] at hlast
  by_contra ht
  rw [Bool.not_eq_false] at ht
  rw [consume_done habs ht] at hlast
  obtain rfl := Except.ok.inj hlast
  rw [ht] at hu
  exact Bool.noConfusion hu

variable {parse : σ → List β → Except ε (Bool × σ)}

theorem feed_cons {r : Bool} {rs : List Bool} {chunk : List β} {chunks : List (List β)}
    (h : feed parse s (chunk :: chunks) = .ok (r :: rs, t)) :
    ∃ u, parse s chunk = .ok (r, u) ∧ feed parse u chunks = .ok (rs, t) := by
  unfold feed at h
  cases hp : parse s chunk with
  | error e => rw [hp] at h; simp at h
  | ok p =>
      obtain ⟨r', u⟩ := p
      rw [hp] at h
      cases hf : feed parse u chunks with
      | error e => simp [hf] at h
      | ok q =>
          simp only [hf, Except.ok.injEq, Prod.mk.injEq, List.cons.injEq] at h
          obtain ⟨⟨rfl, rfl⟩, rfl⟩ := h
          exact ⟨u, rfl, hf⟩

/-- What follows once the machine is done changes neither report nor state. -/
theorem report_append (hparse : ∀ s chunk, parse s chunk =
      (consume step s chunk).map fun t => (done t, t))
    (habs : ∀ s x, done s = true → step s x = .ok s)
    (h : parse s a = .ok (true, t)) (b : List β) : parse s (a ++ b) = .ok (true, t) := by
  rw [hparse] at h ⊢
  cases ha : consume step s a with
  | error e => rw [ha] at h; simp [Except.map] at h
  | ok u =>
      rw [ha] at h
      obtain ⟨hdone, rfl⟩ := Prod.mk.inj (Except.ok.inj h)
      rw [consume_append ha, consume_done habs hdone]
      exact congrArg Except.ok (Prod.ext hdone rfl)

/-- No chunk of a stream is refused when, and only when, the uncut stream is not. -/
theorem feed_ok_iff (hparse : ∀ s chunk, parse s chunk =
      (consume step s chunk).map fun t => (done t, t)) :
    ∀ (chunks : List (List β)) (s : σ),
      (∃ reports t, feed parse s chunks = .ok (reports, t)) ↔
        ∃ t, consume step s chunks.flatten = .ok t := by
  intro chunks
  induction chunks with
  | nil => exact fun s => ⟨fun _ => ⟨s, rfl⟩, fun _ => ⟨[], s, rfl⟩⟩
  | cons chunk chunks ih =>
      intro s
      rw [List.flatten_cons, feed, hparse]
      cases hchunk : consume step s chunk with
      | error e =>
          rw [consume_append_error hchunk]
          constructor <;> rintro ⟨_, h⟩
          · obtain ⟨_, h⟩ := h
            nomatch h
          · nomatch h
      | ok u =>
          rw [consume_append hchunk, ← ih u]
          simp only [Except.map]
          cases feed parse u chunks with
          | error e => exact iff_of_false (by simp) (by simp)
          | ok r => exact iff_of_true ⟨_, _, rfl⟩ ⟨r.1, r.2, rfl⟩

/-- The state after chunks is that after the uncut stream. -/
theorem feed_consume (hparse : ∀ s chunk, parse s chunk =
      (consume step s chunk).map fun t => (done t, t)) :
    ∀ (chunks : List (List β)) {s t : σ} {reports : List Bool},
      feed parse s chunks = .ok (reports, t) → consume step s chunks.flatten = .ok t := by
  intro chunks
  induction chunks with
  | nil =>
      intro s t reports h
      obtain ⟨-, rfl⟩ := Prod.mk.inj (Except.ok.inj h)
      rfl
  | cons chunk chunks ih =>
      intro s t reports h
      unfold feed at h
      rw [hparse] at h
      cases hchunk : consume step s chunk with
      | error e => simp [hchunk, Except.map] at h
      | ok u =>
          cases hf : feed parse u chunks with
          | error e => simp [hchunk, hf, Except.map] at h
          | ok r =>
              simp only [hchunk, hf, Except.map, Except.ok.injEq, Prod.mk.injEq] at h
              obtain ⟨-, rfl⟩ := h
              rw [List.flatten_cons, consume_append hchunk]
              exact ih hf

/-- One of the reports is positive when, and only when, the machine is done in the end. -/
theorem mem_reports_iff (hparse : ∀ s chunk, parse s chunk =
      (consume step s chunk).map fun t => (done t, t))
    (habs : ∀ s x, done s = true → step s x = .ok s) :
    ∀ (chunks : List (List β)) {s t : σ} {reports : List Bool}, done s = false →
      feed parse s chunks = .ok (reports, t) → (true ∈ reports ↔ done t = true) := by
  intro chunks
  induction chunks with
  | nil =>
      intro s t reports hs h
      obtain ⟨rfl, rfl⟩ := Prod.mk.inj (Except.ok.inj h)
      simp [hs]
  | cons chunk chunks ih =>
      intro s t reports hs h
      unfold feed at h
      rw [hparse] at h
      cases hchunk : consume step s chunk with
      | error e => simp [hchunk, Except.map] at h
      | ok u =>
          cases hf : feed parse u chunks with
          | error e => simp [hchunk, hf, Except.map] at h
          | ok r =>
              simp only [hchunk, hf, Except.map, Except.ok.injEq, Prod.mk.injEq] at h
              obtain ⟨rfl, rfl⟩ := h
              cases hu : done u with
              | false =>
                  rw [List.mem_cons, or_iff_right (by simp)]
                  exact ih hu hf
              | true =>
                  have hdone := feed_consume hparse chunks hf
                  rw [consume_done habs hu] at hdone
                  obtain rfl := Except.ok.inj hdone
                  exact iff_of_true List.mem_cons_self hu

/-- Feeding a proper prefix of the text in chunks: the state is that of the
unchunked prefix, and every report is negative. -/
theorem feed_before (hparse : ∀ s chunk, parse s chunk =
      (consume step s chunk).map fun t => (done t, t))
    (habs : ∀ s x, done s = true → step s x = .ok s) :
    ∀ (before : List (List β)) {s : σ} {rest : List β},
      consume step s (before.flatten ++ rest) = .ok u → done u = false →
      ∃ t, feed parse s before = .ok (List.replicate before.length false, t) ∧
        consume step s before.flatten = .ok t := by
  intro before
  induction before with
  | nil => exact fun _ _ => ⟨_, rfl, rfl⟩
  | cons chunk before ih =>
      intro s rest hrun hu
      rw [List.flatten_cons, List.append_assoc] at hrun
      obtain ⟨t, ht, hrest⟩ := consume_prefix hrun
      have hnot : done t = false := not_done_of_prefix habs hrun hu ht
      obtain ⟨t', hfeed, ht'⟩ := ih hrest hu
      refine ⟨t', ?_, ?_⟩
      · unfold feed
        rw [hparse, ht]
        simp only [Except.map, hfeed, hnot]
        rfl
      · rw [List.flatten_cons, consume_append ht, ht']

/-- **The report comes with the last symbol.** However the text `body ++ [x]` is
cut, the chunk that holds `x` is reported and no chunk before it. -/
theorem feed_text (hparse : ∀ s chunk, parse s chunk =
      (consume step s chunk).map fun t => (done t, t))
    (habs : ∀ s x, done s = true → step s x = .ok s) {body : List β} {x : β}
    (hbody : consume step s body = .ok u) (hu : done u = false)
    (hx : step u x = .ok t) (ht : done t = true)
    {before after : List (List β)} {last : List β} (hlast : last ≠ [])
    (hafter : ∀ chunk ∈ after, chunk = [])
    (hsplit : (before ++ last :: after).flatten = body ++ [x]) :
    ∃ v, feed parse s before = .ok (List.replicate before.length false, v) ∧
      parse v last = .ok (true, t) := by
  have hnil : after.flatten = [] := List.flatten_eq_nil_iff.mpr hafter
  rw [List.flatten_append, List.flatten_cons, hnil, List.append_nil] at hsplit
  -- split off the last symbol of the last chunk
  obtain ⟨init, y, rfl⟩ : ∃ init y, last = init ++ [y] :=
    ⟨last.dropLast, last.getLast hlast, (List.dropLast_concat_getLast hlast).symm⟩
  rw [← List.append_assoc] at hsplit
  obtain ⟨hinit, hy⟩ := List.append_inj' hsplit rfl
  obtain rfl := List.singleton_inj.mp hy
  rw [← hinit] at hbody
  obtain ⟨v, hfeed, hv⟩ := feed_before hparse habs before hbody hu
  refine ⟨v, hfeed, ?_⟩
  rw [consume_append hv] at hbody
  rw [hparse, consume_append hbody, consume_cons hx, consume_nil]
  simp only [Except.map, ht]

end Foundation
