import Mathlib.Data.List.Basic

/-!
# Machines that keep one state for each key

A machine takes events and answers each of them. It is keyed when an event reads and
writes only the part of the state under its own key. Then the events of other keys can
be left out: the part under a key, and the answers to its events, are those of a run in
which nothing else happens.
-/

namespace Foundation

variable {σ ε ρ κ τ : Type*}

/-- `view s k` is the part of `s` under the key `k`. -/
structure Keyed (step : σ → ε → ρ × σ) (key : ε → κ) (view : σ → κ → τ) : Prop where
  frame (s : σ) (e : ε) {k : κ} : k ≠ key e → view (step s e).2 k = view s k
  answer {s s' : σ} {e : ε} : view s (key e) = view s' (key e) → (step s e).1 = (step s' e).1
  update {s s' : σ} {e : ε} : view s (key e) = view s' (key e) →
    view (step s e).2 (key e) = view (step s' e).2 (key e)

namespace Keyed

variable {step : σ → ε → ρ × σ} {key : ε → κ} {view : σ → κ → τ}

theorem view_congr (h : Keyed step key view) {s s' : σ} (e : ε) {k : κ}
    (hview : view s k = view s' k) :
    view (step s e).2 k = view (step s' e).2 k := by
  by_cases hk : k = key e
  · subst hk
    exact h.update hview
  · rw [h.frame s e hk, h.frame s' e hk, hview]

/-- A filter that keeps the events of a key keeps what is stored under it. -/
theorem view_filter (h : Keyed step key view) {k : κ} {p : ε → Bool} {events : List ε} :
    ∀ {s s' : σ}, (∀ e ∈ events, key e = k → p e = true) → view s k = view s' k →
      view (events.foldl (fun s e => (step s e).2) s) k =
        view ((events.filter p).foldl (fun s e => (step s e).2) s') k := by
  induction events with
  | nil => exact fun _ hview => hview
  | cons e events ih =>
      intro s s' hkeep hview
      obtain ⟨he, hrest⟩ := List.forall_mem_cons.mp hkeep
      cases hp : p e with
      | true =>
          rw [List.filter_cons_of_pos hp, List.foldl_cons, List.foldl_cons]
          exact ih hrest (h.view_congr e hview)
      | false =>
          have hk : k ≠ key e := fun hk => by simp [he hk.symm] at hp
          rw [List.filter_cons_of_neg (by simp [hp]), List.foldl_cons]
          exact ih hrest ((h.frame s e hk).trans hview)

/-- The answer to an event depends only on the earlier events of its key. -/
theorem answer_filter (h : Keyed step key view) {e : ε} {p : ε → Bool} {events : List ε} (s : σ)
    (hkeep : ∀ e' ∈ events, key e' = key e → p e' = true) :
    (step (events.foldl (fun s e => (step s e).2) s) e).1 =
      (step ((events.filter p).foldl (fun s e => (step s e).2) s) e).1 :=
  h.answer (h.view_filter hkeep rfl)

end Keyed

end Foundation
