import Mathlib.Order.Basic

/-!
# Timers that run out when they are looked at

A state with a timer in it need not be woken when the timer runs out: every operation
first settles the state at the time it is called. When settling twice comes to settling
late, looking at such a state is not an action. `AlikeFrom` relates the states that no
later operation tells apart; `core` is the part of the state that they all depend on.
-/

namespace Foundation

variable {σ ε κ T : Type*}

section Timer

variable [LE T]

structure LazyTimer (settle : T → σ → σ) (act : T → ε → σ → σ) (core : σ → κ) : Prop where
  settle_congr {t : T} {s s' : σ} : core s = core s' → core (settle t s) = core (settle t s')
  act_congr {t : T} {e : ε} {s s' : σ} : core s = core s' → core (act t e s) = core (act t e s')
  settle_settle {t t' : T} (s : σ) : t ≤ t' → core (settle t' (settle t s)) = core (settle t' s)
  act_settle (t : T) (e : ε) (s : σ) : core (act t e (settle t s)) = core (act t e s)

/-- From the time `t` on the two states settle alike. -/
def AlikeFrom (settle : T → σ → σ) (core : σ → κ) (t : T) (s s' : σ) : Prop :=
  ∀ t', t ≤ t' → core (settle t' s) = core (settle t' s')

end Timer

namespace AlikeFrom

variable {settle : T → σ → σ} {act : T → ε → σ → σ} {core : σ → κ} {t t' : T} {s s' s'' : σ}

section Timer

variable [LE T]

theorem refl (s : σ) : AlikeFrom settle core t s s := fun _ _ => rfl

theorem symm (h : AlikeFrom settle core t s s') : AlikeFrom settle core t s' s :=
  fun t' hle => (h t' hle).symm

theorem trans (h : AlikeFrom settle core t s s') (h' : AlikeFrom settle core t s' s'') :
    AlikeFrom settle core t s s'' :=
  fun t' hle => (h t' hle).trans (h' t' hle)

theorem of_core (L : LazyTimer settle act core) (h : core s = core s') :
    AlikeFrom settle core t s s' :=
  fun _ _ => L.settle_congr h

/-- To look at the state is not to act. -/
theorem settled (L : LazyTimer settle act core) (t : T) (s : σ) :
    AlikeFrom settle core t (settle t s) s :=
  fun _ hle => L.settle_settle s hle

end Timer

variable [Preorder T]

theorem mono (h : AlikeFrom settle core t s s') (hle : t ≤ t') :
    AlikeFrom settle core t' s s' :=
  fun t'' hle' => h t'' (le_trans hle hle')

/-- An action on states that are alike leaves states that are alike. -/
theorem acted (L : LazyTimer settle act core) (h : AlikeFrom settle core t s s') (e : ε) :
    AlikeFrom settle core t (act t e s) (act t e s') := by
  apply of_core L
  rw [← L.act_settle t e s, ← L.act_settle t e s']
  exact L.act_congr (h t le_rfl)

end AlikeFrom

end Foundation
