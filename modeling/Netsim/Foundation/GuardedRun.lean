import Mathlib.Data.List.Basic

/-!
# What holds at every step of a run

A run folds a step function over its events. A property of the state before a step and
the event holds throughout the run when it holds at every split of the events. When a
guard decides at each step whether an invariant is kept, the guard holds throughout just
when the invariant does.
-/

namespace Foundation

variable {σ ε : Type*}

/-- `P` holds at every event of the run, of the state that the event meets. -/
def Throughout (step : σ → ε → σ) (P : σ → ε → Prop) (s : σ) (events : List ε) : Prop :=
  ∀ before e after, events = before ++ e :: after → P (before.foldl step s) e

namespace Throughout

variable {step : σ → ε → σ} {P Q : σ → ε → Prop} {Inv : σ → Prop} {s : σ} {e : ε}
  {events : List ε}

theorem nil : Throughout step P s [] := by
  intro before e after h
  simp at h

theorem cons_iff : Throughout step P s (e :: events) ↔
    P s e ∧ Throughout step P (step s e) events := by
  constructor
  · intro h
    refine ⟨h [] e events rfl, fun before e' after hsplit => ?_⟩
    exact h (e :: before) e' after (by rw [hsplit, List.cons_append])
  · rintro ⟨hhead, htail⟩ before e' after hsplit
    cases before with
    | nil =>
        obtain ⟨rfl, -⟩ := List.cons.inj hsplit
        exact hhead
    | cons b before =>
        obtain ⟨rfl, hrest⟩ := List.cons.inj hsplit
        exact htail before e' after hrest

/-- A step keeps the invariant just when its guard holds, so a whole run does. -/
theorem guarded_iff (hguard : ∀ s e, Inv s → (Inv (step s e) ↔ P s e)) (hs : Inv s) :
    Throughout step (fun s e => Inv (step s e)) s events ↔ Throughout step P s events := by
  induction events generalizing s with
  | nil => exact iff_of_true nil nil
  | cons e events ih =>
      rw [cons_iff, cons_iff, ← hguard s e hs]
      exact and_congr_right fun hnext => ih hnext

theorem and_iff : Throughout step (fun s e => P s e ∧ Q s e) s events ↔
    Throughout step P s events ∧ Throughout step Q s events := by
  constructor
  · intro h
    exact ⟨fun b e a hsplit => (h b e a hsplit).1, fun b e a hsplit => (h b e a hsplit).2⟩
  · rintro ⟨hP, hQ⟩ b e a hsplit
    exact ⟨hP b e a hsplit, hQ b e a hsplit⟩

end Throughout

end Foundation
