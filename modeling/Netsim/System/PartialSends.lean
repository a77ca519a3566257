import Netsim.Foundation.WhileLoop
import Netsim.System.TelemetryHttpClient

/-!
# Partial sends

`Connection::send_data` and `send_all` both write what is left until the kernel has taken
everything or a call fails. Each is the transfer of `PartialWrite` with its offset in
machine words, followed by its own treatment of the error. While the offset stays within
the data the words do not wrap.
-/

namespace Netsim.System

open Foundation Netsim.Core Netsim.Protocols

variable {kernel : SendKernel} {data : Buffer} {sent count fuel : ℕ}

/-! ### The loop of `send_data` -/

/-- The locals stand at the offset `sent` of the data. -/
structure SendDataAt (data : Buffer) (sent : ℕ) (s : Connection.SendState) : Prop where
  le : sent ≤ data.bytes.length
  totalSent : s.totalSent = Int64.ofNat sent
  leftToSend : s.leftToSend = UInt64.ofNat (data.bytes.length - sent)

namespace SendDataAt

variable {s : Connection.SendState}

theorem toInt_totalSent (h : SendDataAt data sent s) : s.totalSent.toInt = sent := by
  rw [h.totalSent]
  exact Int64.toInt_ofNat_of_lt (Nat.lt_of_le_of_lt h.le data.length_lt)

theorem toNatClampNeg_totalSent (h : SendDataAt data sent s) :
    s.totalSent.toNatClampNeg = sent := by
  rw [h.totalSent]
  exact Int64.toNatClampNeg_ofNat_of_lt (Nat.lt_of_le_of_lt h.le data.length_lt)

theorem toNat_leftToSend (h : SendDataAt data sent s) :
    s.leftToSend.toNat = data.bytes.length - sent := by
  have hlt := data.length_lt
  rw [h.leftToSend]
  exact UInt64.toNat_ofNat_of_lt' (Nat.lt_of_le_of_lt (Nat.sub_le _ _)
    (Nat.lt_trans hlt (by decide)))

/-- The signed comparison of the loop. -/
theorem totalSent_lt_iff (h : SendDataAt data sent s) :
    s.totalSent < data.size.toInt64 ↔ sent < data.bytes.length := by
  have hsize : data.size.toInt64.toInt = data.bytes.length := by
    rw [Buffer.size, UInt64.toInt64_ofNat']
    exact Int64.toInt_ofNat_of_lt data.length_lt
  rw [Int64.lt_iff_toInt_lt, h.toInt_totalSent, hsize, Nat.cast_lt]

theorem accept (h : SendDataAt data sent s) (hcount : count ≤ data.bytes.length - sent)
    (chunks : List Bytes) :
    SendDataAt data (sent + count) {
      totalSent := s.totalSent + Int64.ofNat count
      leftToSend := s.leftToSend - UInt64.ofNat count
      chunks } where
  le := by
    have := h.le
    omega
  totalSent := by rw [h.totalSent, Int64.ofNat_add]
  leftToSend := by
    dsimp only
    rw [h.leftToSend, ← UInt64.ofNat_sub hcount, Nat.sub_sub]

end SendDataAt

/-- What `send_data` makes of a transfer from the offset `sent`. -/
def sendDataOutcome (sent : ℕ) (t : SendLog) : Except Exception Int64 :=
  match t.failure with
  | none => .ok (Int64.ofNat (sent + t.chunks.flatten.length))
  | some errno =>
      if WouldBlock errno then .ok (Int64.ofNat (sent + t.chunks.flatten.length))
      else .error (.systemError ⟨errno, "Send failed"⟩)

theorem sendDataOutcome_cons (sent : ℕ) (chunk : Bytes) (t : SendLog) :
    sendDataOutcome sent ⟨chunk :: t.chunks, t.failure⟩ =
      sendDataOutcome (sent + chunk.length) t := by
  unfold sendDataOutcome
  rw [List.flatten_cons, List.length_append, Nat.add_assoc]

theorem sendDataOutcome_eq_ok {t : SendLog} {n : Int64} (h : sendDataOutcome sent t = .ok n) :
    n = Int64.ofNat (sent + t.chunks.flatten.length) ∧
      ∀ errno, t.failure = some errno → WouldBlock errno := by
  unfold sendDataOutcome at h
  split at h
  · exact ⟨(Except.ok.inj h).symm, by simp [*]⟩
  · split_ifs at h with hblock
    exact ⟨(Except.ok.inj h).symm, by simp [*]⟩

theorem sendDataOutcome_error_iff {t : SendLog} : (∃ e, sendDataOutcome sent t = .error e) ↔
    ∃ errno, t.failure = some errno ∧ ¬ WouldBlock errno := by
  unfold sendDataOutcome
  cases t.failure with
  | none => simp
  | some errno =>
      dsimp only
      split_ifs with hblock <;> simp [hblock]

theorem sendLoop_eq {s : Connection.SendState} (h : SendDataAt data sent s)
    (hfuel : data.bytes.length - sent < fuel) :
    let t := transfer kernel s.chunks.length (data.bytes.drop sent)
    Connection.sendLoop kernel data fuel s =
      some (sendDataOutcome sent t, ⟨s.chunks ++ t.chunks, t.failure⟩) := by
  refine loop_eq_transfer sendDataOutcome_cons ?_ ?_ ?_ h hfuel
  · intro sent s fuel h hge
    have hguard : ¬ s.totalSent < data.size.toInt64 := fun hlt =>
      Nat.not_le_of_lt (h.totalSent_lt_iff.mp hlt) hge
    rw [Connection.sendLoop, if_neg hguard, h.totalSent]
    rfl
  · intro sent s fuel requested errno h hlt hreq hanswer
    obtain rfl : requested = s.leftToSend.toNat := hreq.trans h.toNat_leftToSend.symm
    rw [Connection.sendLoop, if_pos (h.totalSent_lt_iff.mpr hlt), hanswer, h.totalSent,
      sendDataOutcome]
    dsimp only
    split_ifs <;> rfl
  · intro sent s fuel requested count pos le h hlt hreq hanswer
    obtain rfl : requested = s.leftToSend.toNat := hreq.trans h.toNat_leftToSend.symm
    rw [Connection.sendLoop, if_pos (h.totalSent_lt_iff.mpr hlt), hanswer]
    dsimp only
    rw [h.toNatClampNeg_totalSent]
    exact ⟨_, rfl, h.accept (hreq ▸ le) _, rfl⟩

theorem sendData_returns (fd : Fd) (kernel : SendKernel) (data : Buffer) :
    Returns (Connection.sendData ⟨⟨some fd⟩⟩ kernel data)
      (sendDataOutcome 0 (transfer kernel 0 data.bytes), transfer kernel 0 data.bytes) := by
  refine ⟨data.bytes.length + 1, fun fuel hfuel => ?_⟩
  have hstart : SendDataAt data 0 { totalSent := 0, leftToSend := data.size, chunks := [] } :=
    ⟨Nat.zero_le _, rfl, rfl⟩
  exact sendLoop_eq hstart (by omega)

/-! ### The loop of `send_all` -/

/-- The offset of `send_all` stands at `sent`. -/
structure SendAllAt (data : Buffer) (sent : ℕ) (s : TelemetryHttp.SendAllState) : Prop where
  le : sent ≤ data.bytes.length
  totalSent : s.totalSent = UInt64.ofNat sent

namespace SendAllAt

variable {s : TelemetryHttp.SendAllState}

theorem toNat_totalSent (h : SendAllAt data sent s) : s.totalSent.toNat = sent := by
  rw [h.totalSent]
  exact UInt64.toNat_ofNat_of_lt' (Nat.lt_of_le_of_lt h.le
    (Nat.lt_trans data.length_lt (by decide)))

theorem totalSent_lt_iff (h : SendAllAt data sent s) :
    s.totalSent < UInt64.ofNat data.bytes.length ↔ sent < data.bytes.length := by
  rw [← Buffer.size, UInt64.lt_iff_toNat_lt, h.toNat_totalSent, data.toNat_size]

theorem toNat_left (h : SendAllAt data sent s) :
    (UInt64.ofNat data.bytes.length - s.totalSent).toNat = data.bytes.length - sent := by
  have hle : s.totalSent ≤ data.size := by
    rw [UInt64.le_iff_toNat_le, h.toNat_totalSent, data.toNat_size]
    exact h.le
  rw [← Buffer.size, UInt64.toNat_sub_of_le _ _ hle, h.toNat_totalSent, data.toNat_size]

theorem accept (h : SendAllAt data sent s) (hcount : count ≤ data.bytes.length - sent)
    (chunks : List Bytes) :
    SendAllAt data (sent + count) { totalSent := s.totalSent + UInt64.ofNat count, chunks } where
  le := by
    have := h.le
    omega
  totalSent := by rw [h.totalSent, UInt64.ofNat_add]

end SendAllAt

theorem sendAllLoop_eq {s : TelemetryHttp.SendAllState} (h : SendAllAt data sent s)
    (hfuel : data.bytes.length - sent < fuel) :
    let t := transfer kernel s.chunks.length (data.bytes.drop sent)
    TelemetryHttp.sendAllLoop kernel data.bytes fuel s =
      some (t.failure.isNone, ⟨s.chunks ++ t.chunks, t.failure⟩) := by
  refine loop_eq_transfer (f := fun _ t => t.failure.isNone) (fun _ _ _ => rfl) ?_ ?_ ?_ h hfuel
  · intro sent s fuel h hge
    have hguard : ¬ s.totalSent < UInt64.ofNat data.bytes.length := fun hlt =>
      Nat.not_le_of_lt (h.totalSent_lt_iff.mp hlt) hge
    rw [TelemetryHttp.sendAllLoop, if_neg hguard]
    rfl
  · intro sent s fuel requested errno h hlt hreq hanswer
    obtain rfl : requested = (UInt64.ofNat data.bytes.length - s.totalSent).toNat :=
      hreq.trans h.toNat_left.symm
    rw [TelemetryHttp.sendAllLoop, if_pos (h.totalSent_lt_iff.mpr hlt), hanswer]
    rfl
  · intro sent s fuel requested count pos le h hlt hreq hanswer
    obtain rfl : requested = (UInt64.ofNat data.bytes.length - s.totalSent).toNat :=
      hreq.trans h.toNat_left.symm
    rw [TelemetryHttp.sendAllLoop, if_pos (h.totalSent_lt_iff.mpr hlt), hanswer]
    dsimp only
    rw [h.toNat_totalSent]
    exact ⟨_, rfl, h.accept (hreq ▸ le) _, rfl⟩

theorem sendAll_returns (kernel : SendKernel) (data : Buffer) :
    Returns (TelemetryHttp.sendAll kernel data.bytes)
      ((transfer kernel 0 data.bytes).failure.isNone, transfer kernel 0 data.bytes) := by
  refine ⟨data.bytes.length + 1, fun fuel hfuel => ?_⟩
  have hstart : SendAllAt data 0 { totalSent := 0, chunks := [] } := ⟨Nat.zero_le _, rfl⟩
  exact sendAllLoop_eq hstart (by omega)

/-! ### What the callers learn -/

/-- **No byte is lost or repeated.** Both loops return, and their calls are those of one
transfer: the kernel is offered all that is left until nothing is or a call fails. What it
has taken for `send_data` is the front of the data that the count returned tells, all of it
unless a call would have blocked, and another error is thrown. `send_all` succeeds just when
the kernel has taken the whole request. -/
theorem partial_sends (kernel : SendKernel) (data : Buffer) :
    (∀ fd, ∃ outcome log, Returns (Connection.sendData ⟨⟨some fd⟩⟩ kernel data) (outcome, log) ∧
      log = transfer kernel 0 data.bytes ∧
      (∀ n, outcome = .ok n → ∃ k : ℕ, n.toInt = k ∧ k ≤ data.bytes.length ∧
        log.chunks.flatten = data.bytes.take k ∧
        (k ≠ data.bytes.length ↔ ∃ errno, log.failure = some errno ∧ WouldBlock errno)) ∧
      ((∃ e, outcome = .error e) ↔ ∃ errno, log.failure = some errno ∧ ¬ WouldBlock errno)) ∧
    ∃ sent log, Returns (TelemetryHttp.sendAll kernel data.bytes) (sent, log) ∧
      log = transfer kernel 0 data.bytes ∧ log.chunks.flatten <+: data.bytes ∧
      (sent = true ↔ log.chunks.flatten = data.bytes) := by
  have hfront := flatten_transfer_front kernel 0 data.bytes
  have hwhole := flatten_transfer_eq_iff kernel 0 data.bytes
  refine ⟨fun fd => ⟨_, _, sendData_returns fd kernel data, rfl, fun n hn => ?_,
    sendDataOutcome_error_iff⟩, _, _, sendAll_returns kernel data, rfl, hfront, ?_⟩
  · obtain ⟨hcount, hblock⟩ := sendDataOutcome_eq_ok hn
    refine ⟨(transfer kernel 0 data.bytes).chunks.flatten.length, ?_, hfront.length_le,
      List.prefix_iff_eq_take.mp hfront, ?_⟩
    · rw [hcount, Nat.zero_add]
      exact Int64.toInt_ofNat_of_lt (Nat.lt_of_le_of_lt hfront.length_le data.length_lt)
    · rw [ne_eq, hfront.sublist.length_eq, hwhole, ← ne_eq, Option.ne_none_iff_exists']
      constructor
      · rintro ⟨errno, hfailure⟩
        exact ⟨errno, hfailure, hblock errno hfailure⟩
      · rintro ⟨errno, hfailure, -⟩
        exact ⟨errno, hfailure⟩
  · rw [hwhole, Option.isNone_iff_eq_none]

end Netsim.System
