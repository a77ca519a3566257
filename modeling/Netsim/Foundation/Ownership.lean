import Mathlib.Logic.Function.Basic
import Mathlib.Data.List.Basic

/-!
# Exclusive ownership

Resources are acquired and released, and in between each is held by one of the holders.
The ledger records both, newest first. It is proper when nothing is acquired that is in use
and nothing released that is not. Acquiring, releasing and handing over keep the holders
and the ledger in step.
-/

namespace Foundation

variable {ι ρ : Type*}

inductive LedgerEntry (ρ : Type*) where
  | acquired (r : ρ)
  | released (r : ρ)
deriving DecidableEq, Repr

/-- What the entries leave in use. -/
def InUse : List (LedgerEntry ρ) → ρ → Prop
  | [], _ => False
  | .acquired s :: ledger, r => s = r ∨ InUse ledger r
  | .released s :: ledger, r => s ≠ r ∧ InUse ledger r

def Proper : List (LedgerEntry ρ) → Prop
  | [] => True
  | .acquired r :: ledger => ¬ InUse ledger r ∧ Proper ledger
  | .released r :: ledger => InUse ledger r ∧ Proper ledger

/-- What was free and is in use has been acquired in between. -/
theorem acquired_of_inUse {r : ρ} {before : List (LedgerEntry ρ)} (hbefore : ¬ InUse before r) :
    ∀ {later : List (LedgerEntry ρ)}, InUse (later ++ before) r → .acquired r ∈ later
  | [], h => absurd h hbefore
  | .acquired s :: later, h => by
      rcases h with rfl | h
      · exact List.mem_cons_self
      · exact List.mem_cons_of_mem _ (acquired_of_inUse hbefore h)
  | .released s :: later, h => List.mem_cons_of_mem _ (acquired_of_inUse hbefore h.2)

theorem Proper.of_append {before : List (LedgerEntry ρ)} :
    ∀ {later : List (LedgerEntry ρ)}, Proper (later ++ before) → Proper before
  | [], h => h
  | .acquired _ :: _, h => of_append h.2
  | .released _ :: _, h => of_append h.2

/-- Between two releases of a resource it is acquired again. -/
theorem Proper.acquired_between {r : ρ} {later between earlier : List (LedgerEntry ρ)}
    (h : Proper (later ++ .released r :: (between ++ .released r :: earlier))) :
    .acquired r ∈ between := by
  have hfree : ¬ InUse (.released r :: earlier) r := fun hin => hin.1 rfl
  exact acquired_of_inUse hfree h.of_append.1

/-- What is in use has one holder, and the ledger is proper. -/
structure Accounted (held : ι → Option ρ) (ledger : List (LedgerEntry ρ)) : Prop where
  inUse_iff : ∀ r, InUse ledger r ↔ ∃ x, held x = some r
  unique : ∀ x y r, held x = some r → held y = some r → x = y
  proper : Proper ledger

namespace Accounted

variable {held : ι → Option ρ} {ledger : List (LedgerEntry ρ)} {x y : ι} {r : ρ}

theorem empty : Accounted (fun _ : ι => (none : Option ρ)) [] where
  inUse_iff := by simp [InUse]
  unique := by simp
  proper := trivial

theorem existsUnique_holder (h : Accounted held ledger) (hr : InUse ledger r) :
    ∃! x, held x = some r := by
  obtain ⟨x, hx⟩ := (h.inUse_iff r).mp hr
  exact ⟨x, hx, fun y hy => h.unique y x r hy hx⟩

variable [DecidableEq ι]

theorem acquire (h : Accounted held ledger) (hx : held x = none) (hr : ¬ InUse ledger r) :
    Accounted (Function.update held x (some r)) (.acquired r :: ledger) where
  inUse_iff s := by
    rw [InUse, h.inUse_iff]
    constructor
    · rintro (rfl | ⟨y, hy⟩)
      · exact ⟨x, Function.update_self _ _ _⟩
      · have hne : y ≠ x := by
          rintro rfl
          rw [hx] at hy
          cases hy
        exact ⟨y, by rw [Function.update_of_ne hne, hy]⟩
    · rintro ⟨y, hy⟩
      by_cases heq : y = x
      · rw [heq, Function.update_self] at hy
        exact Or.inl (Option.some.inj hy)
      · rw [Function.update_of_ne heq] at hy
        exact Or.inr ⟨y, hy⟩
  unique := by
    -- nobody held the resource before
    have hfree : ∀ y, held y ≠ some r := fun y hy => hr ((h.inUse_iff r).mpr ⟨y, hy⟩)
    intro y z s hy hz
    rw [Function.update_apply] at hy hz
    split_ifs at hy hz with hyx hzx hzx
    · rw [hyx, hzx]
    · exact absurd (hz.trans hy.symm) (hfree z)
    · exact absurd (hy.trans hz.symm) (hfree y)
    · exact h.unique y z s hy hz
  proper := ⟨hr, h.proper⟩

theorem release (h : Accounted held ledger) (hx : held x = some r) :
    Accounted (Function.update held x none) (.released r :: ledger) where
  inUse_iff s := by
    rw [InUse, h.inUse_iff]
    constructor
    · rintro ⟨hne, y, hy⟩
      have hyx : y ≠ x := by
        rintro rfl
        exact hne (Option.some.inj (hx.symm.trans hy))
      exact ⟨y, by rw [Function.update_of_ne hyx, hy]⟩
    · rintro ⟨y, hy⟩
      rw [Function.update_apply] at hy
      split_ifs at hy with hyx
      refine ⟨?_, y, hy⟩
      rintro rfl
      exact hyx (h.unique y x r hy hx)
  unique := by
    intro y z s hy hz
    rw [Function.update_apply] at hy hz
    split_ifs at hy hz
    exact h.unique y z s hy hz
  proper := ⟨(h.inUse_iff r).mpr ⟨x, hx⟩, h.proper⟩

/-- What `y` holds, if anything, goes to `x`. -/
theorem handOver (h : Accounted held ledger) (hne : x ≠ y) (hx : held x = none) :
    Accounted (Function.update (Function.update held x (held y)) y none) ledger where
  inUse_iff s := by
    rw [h.inUse_iff]
    constructor
    · rintro ⟨z, hz⟩
      by_cases hzy : z = y
      · rw [hzy] at hz
        exact ⟨x, by rw [Function.update_of_ne hne, Function.update_self, hz]⟩
      · have hzx : z ≠ x := by
          rintro rfl
          rw [hx] at hz
          cases hz
        exact ⟨z, by rw [Function.update_of_ne hzy, Function.update_of_ne hzx, hz]⟩
    · rintro ⟨z, hz⟩
      rw [Function.update_apply, Function.update_apply] at hz
      split_ifs at hz
      · exact ⟨y, hz⟩
      · exact ⟨z, hz⟩
  unique := by
    intro z w s hz hw
    rw [Function.update_apply, Function.update_apply] at hz hw
    split_ifs at hz hw with hzy hzx hwy hwx hwy hwx
    · rw [hzx, hwx]
    · exact absurd (h.unique w y s hw hz) hwy
    · exact absurd (h.unique z y s hz hw) hzy
    · exact h.unique z w s hz hw
  proper := h.proper

end Accounted

end Foundation
