import Mathlib.Data.List.Basic

/-!
# Partial writes

A device is offered the front of what is left to write. It takes at least one of the
elements offered, or fails. Writing to it goes on behind what it has taken until nothing
is left or a call fails, so what it has taken, call after call, is always a front of the
data. A loop over an offset that offers the device what is left is such a transfer
(`loop_eq_transfer`).
-/

namespace Foundation

variable {α : Type*} {ε : Type*}

inductive WriteResult (ε : Type*) (requested : ℕ) where
  | accepted (count : ℕ) (pos : 1 ≤ count) (le : count ≤ requested)
  | failed (error : ε)

/-- What the device answers to the call with this number. -/
abbrev Device (ε : Type*) := ℕ → (requested : ℕ) → WriteResult ε requested

/-- What the device has taken at each call, and the error of the call that failed. -/
structure Transferred (α ε : Type*) where
  chunks : List (List α)
  failure : Option ε

/-- Write `rest`, with the calls numbered from `call` on. -/
def transfer (device : Device ε) (call : ℕ) (rest : List α) : Transferred α ε :=
  if rest = [] then ⟨[], none⟩
  else
    match device call rest.length with
    | .failed error => ⟨[], some error⟩
    | .accepted count pos le =>
        let later := transfer device (call + 1) (rest.drop count)
        ⟨rest.take count :: later.chunks, later.failure⟩
termination_by rest.length
decreasing_by
  have := List.length_pos_iff.mpr ‹rest ≠ []›
  rw [List.length_drop]
  omega

variable {device : Device ε} {call count requested : ℕ} {rest : List α} {error : ε}

theorem transfer_nil : transfer device call ([] : List α) = ⟨[], none⟩ := by
  rw [transfer, if_pos rfl]

theorem transfer_failed (hrest : rest ≠ []) (hreq : requested = rest.length)
    (h : device call requested = .failed error) :
    transfer device call rest = ⟨[], some error⟩ := by
  subst hreq
  rw [transfer, if_neg hrest, h]

theorem transfer_accepted (hrest : rest ≠ []) (hreq : requested = rest.length)
    {pos : 1 ≤ count} {le : count ≤ requested}
    (h : device call requested = .accepted count pos le) :
    transfer device call rest =
      ⟨rest.take count :: (transfer device (call + 1) (rest.drop count)).chunks,
        (transfer device (call + 1) (rest.drop count)).failure⟩ := by
  subst hreq
  rw [transfer, if_neg hrest, h]

theorem flatten_transfer_front (device : Device ε) (call : ℕ) (rest : List α) :
    (transfer device call rest).chunks.flatten <+: rest := by
  fun_induction transfer device call rest with
  | case1 => exact List.nil_prefix
  | case2 => exact List.nil_prefix
  | case3 call rest hrest count pos le h later ih =>
      rw [List.flatten_cons]
      nth_rewrite 2 [← List.take_append_drop count rest]
      exact (List.prefix_append_right_inj _).mpr ih

/-- Everything is taken just when no call fails. -/
theorem flatten_transfer_eq_iff (device : Device ε) (call : ℕ) (rest : List α) :
    (transfer device call rest).chunks.flatten = rest ↔
      (transfer device call rest).failure = none := by
  fun_induction transfer device call rest with
  | case1 => exact iff_of_true rfl rfl
  | case2 call rest hrest error h =>
      exact iff_of_false (fun hnil => hrest hnil.symm) (Option.some_ne_none error)
  | case3 call rest hrest count pos le h later ih =>
      rw [← ih, List.flatten_cons]
      nth_rewrite 2 [← List.take_append_drop count rest]
      exact List.append_cancel_left_eq _ _ _ |>.to_iff

/-- **Refinement rule.** A loop that keeps an offset into the data, and at each offset stops
or makes one call as the transfer does, reports by `f` the transfer of what lies behind it. -/
theorem loop_eq_transfer {σ γ : Type*} {loop : ℕ → σ → Option (γ × Transferred α ε)}
    {At : ℕ → σ → Prop} {chunks : σ → List (List α)} {data : List α}
    {f : ℕ → Transferred α ε → γ}
    (hf : ∀ sent chunk t, f sent ⟨chunk :: t.chunks, t.failure⟩ = f (sent + chunk.length) t)
    (hstop : ∀ {sent s fuel}, At sent s → data.length ≤ sent →
      loop (fuel + 1) s = some (f sent ⟨[], none⟩, ⟨chunks s, none⟩))
    (hfail : ∀ {sent s fuel requested error}, At sent s → sent < data.length →
      requested = data.length - sent → device (chunks s).length requested = .failed error →
      loop (fuel + 1) s = some (f sent ⟨[], some error⟩, ⟨chunks s, some error⟩))
    (haccept : ∀ {sent s fuel requested count pos le}, At sent s → sent < data.length →
      requested = data.length - sent →
      device (chunks s).length requested = .accepted count pos le →
      ∃ s', loop (fuel + 1) s = loop fuel s' ∧ At (sent + count) s' ∧
        chunks s' = chunks s ++ [(data.drop sent).take count])
    {sent fuel : ℕ} {s : σ} (h : At sent s) (hfuel : data.length - sent < fuel) :
    let t := transfer device (chunks s).length (data.drop sent)
    loop fuel s = some (f sent t, ⟨chunks s ++ t.chunks, t.failure⟩) := by
  induction fuel generalizing s sent with
  | zero => exact absurd hfuel (Nat.not_lt_zero _)
  | succ fuel ih =>
      intro t
      rcases Nat.lt_or_ge sent data.length with hlt | hge
      · have hrest : data.drop sent ≠ [] := fun hnil =>
          Nat.not_le_of_lt hlt (List.drop_eq_nil_iff.mp hnil)
        cases hanswer : device (chunks s).length (data.length - sent) with
        | failed error =>
            have ht : t = ⟨[], some error⟩ :=
              transfer_failed hrest List.length_drop.symm hanswer
            rw [hfail h hlt rfl hanswer, ht, List.append_nil]
        | accepted count pos le =>
            have ht := transfer_accepted hrest List.length_drop.symm hanswer
            obtain ⟨s', hloop, hat, hchunks⟩ := @haccept sent s fuel _ _ _ _ h hlt rfl hanswer
            have hcount : ((data.drop sent).take count).length = count := by
              rw [List.length_take, List.length_drop, Nat.min_eq_left le]
            have hih := ih hat (by omega)
            dsimp only at hih
            rw [hloop, hih, show t = _ from ht, hf, hcount, hchunks, List.length_append,
              List.length_singleton, List.drop_drop, List.append_assoc, List.singleton_append]
      · have hend : data.drop sent = [] := List.drop_eq_nil_iff.mpr hge
        have ht : t = ⟨[], none⟩ := (congrArg (transfer device _) hend).trans transfer_nil
        rw [hstop h hge, ht, List.append_nil]

end Foundation
