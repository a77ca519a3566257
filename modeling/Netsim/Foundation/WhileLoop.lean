import Mathlib.Data.Finset.Card
import Mathlib.Data.Nat.Basic
import Mathlib.Data.Nat.Find
import Mathlib.Logic.Function.Iterate
import Mathlib.Order.Basic

/-!
# Loops that may not terminate

A `while` loop over a state is a partial step function: the step answers `none`
when the guard fails. `whileFuel` runs it for a bounded number of steps, and
`Returns` says that a fuelled computation settles on one answer, so a result
never depends on how much fuel was supplied.

The rules a client needs: an invariant rule, a termination rule from a
decreasing measure, a rule that counts the rounds, a divergence rule, two-loop rules
for loops that move in lockstep and for loops that need not, and a rule for iterating
a total step towards a target.
-/

namespace Foundation

variable {σ τ α β : Type*}

/-- A fuelled computation returns `a`: from some amount of fuel on, the answer
is `a` and no longer depends on the fuel. -/
def Returns (f : ℕ → Option α) (a : α) : Prop :=
  ∃ N, ∀ n, N ≤ n → f n = some a

theorem Returns.unique {f : ℕ → Option α} {a b : α}
    (ha : Returns f a) (hb : Returns f b) : a = b := by
  obtain ⟨N, hN⟩ := ha
  obtain ⟨M, hM⟩ := hb
  have h : some a = some b :=
    (hN (max N M) (le_max_left N M)).symm.trans (hM (max N M) (le_max_right N M))
  exact Option.some.inj h

theorem Returns.const (a : α) : Returns (fun _ => some a) a :=
  ⟨0, fun _ _ => rfl⟩

theorem Returns.map {f : ℕ → Option α} {a : α} (h : Returns f a) (g : α → β) :
    Returns (fun n => (f n).map g) (g a) := by
  obtain ⟨N, hN⟩ := h
  exact ⟨N, fun n hn => by simp [hN n hn]⟩

theorem Returns.bind {f : ℕ → Option α} {g : ℕ → α → Option β} {a : α} {b : β}
    (hf : Returns f a) (hg : Returns (fun n => g n a) b) :
    Returns (fun n => (f n).bind (g n)) b := by
  obtain ⟨N, hN⟩ := hf
  obtain ⟨M, hM⟩ := hg
  refine ⟨max N M, fun n hn => ?_⟩
  show (f n).bind (g n) = some b
  rw [hN n (le_trans (le_max_left N M) hn), Option.bind_some]
  exact hM n (le_trans (le_max_right N M) hn)

/-- A fuelled computation whose answers survive more fuel. -/
def FuelMono (f : ℕ → Option α) : Prop :=
  ∀ n m a, f n = some a → n ≤ m → f m = some a

theorem FuelMono.returns {f : ℕ → Option α} (hf : FuelMono f) {n : ℕ} {a : α}
    (h : f n = some a) : Returns f a :=
  ⟨n, fun m hm => hf n m a h hm⟩

theorem FuelMono.const (o : Option α) : FuelMono (fun _ => o) :=
  fun _ _ _ h _ => h

theorem FuelMono.map {f : ℕ → Option α} (hf : FuelMono f) (g : α → β) :
    FuelMono (fun n => (f n).map g) := by
  intro n m b h hm
  obtain ⟨a, ha, rfl⟩ := Option.map_eq_some_iff.mp h
  exact Option.map_eq_some_iff.mpr ⟨a, hf n m a ha hm, rfl⟩

theorem FuelMono.bind {f : ℕ → Option α} {g : ℕ → α → Option β} (hf : FuelMono f)
    (hg : ∀ a, FuelMono (fun n => g n a)) : FuelMono (fun n => (f n).bind (g n)) := by
  intro n m b h hm
  obtain ⟨a, ha, hb⟩ := Option.bind_eq_some_iff.mp h
  exact Option.bind_eq_some_iff.mpr ⟨a, hf n m a ha hm, hg a n m b hb hm⟩

/-- Run `step` until it answers `none`, for at most `n` tests of the guard. -/
def whileFuel (step : σ → Option σ) : ℕ → σ → Option σ
  | 0, _ => none
  | n + 1, s =>
      match step s with
      | none => some s
      | some s' => whileFuel step n s'

theorem whileFuel_exit {step : σ → Option σ} {s : σ} (h : step s = none)
    (n : ℕ) : whileFuel step (n + 1) s = some s := by
  rw [whileFuel, h]

theorem whileFuel_step {step : σ → Option σ} {s s' : σ} (h : step s = some s')
    (n : ℕ) : whileFuel step (n + 1) s = whileFuel step n s' := by
  rw [whileFuel, h]

theorem whileFuel_mono (step : σ → Option σ) (s : σ) :
    FuelMono (fun n => whileFuel step n s) := by
  intro n
  induction n generalizing s with
  | zero => intro m t h; exact absurd h (by simp [whileFuel])
  | succ n ih =>
      intro m t h hm
      obtain ⟨m, rfl⟩ : ∃ k, m = k + 1 := ⟨m - 1, by omega⟩
      dsimp only at h ⊢
      cases hs : step s with
      | none => rw [whileFuel_exit hs] at h ⊢; exact h
      | some s' =>
          rw [whileFuel_step hs] at h ⊢
          exact ih s' m t h (by omega)

/-- **Invariant rule.** What one step preserves holds at the exit, where the
guard also fails. -/
theorem whileFuel_invariant {step : σ → Option σ} (I : σ → Prop)
    (hI : ∀ s s', I s → step s = some s' → I s') :
    ∀ {n : ℕ} {s t : σ}, I s → whileFuel step n s = some t →
      I t ∧ step t = none := by
  intro n
  induction n with
  | zero => intro s t _ h; exact absurd h (by simp [whileFuel])
  | succ n ih =>
      intro s t hs h
      cases hstep : step s with
      | none =>
          rw [whileFuel_exit hstep] at h
          obtain rfl := Option.some.inj h
          exact ⟨hs, hstep⟩
      | some s' =>
          rw [whileFuel_step hstep] at h
          exact ih (hI s s' hs hstep) h

/-- **Lockstep rule.** A loop whose steps another one matches is matched at its exit. -/
theorem whileFuel_lockstep {f : σ → Option σ} {g : τ → Option τ} (R : σ → τ → Prop)
    (hnone : ∀ a b, R a b → f a = none → g b = none)
    (hsome : ∀ a b a', R a b → f a = some a' → ∃ b', g b = some b' ∧ R a' b') :
    ∀ {n : ℕ} {a a' : σ} {b : τ}, R a b → whileFuel f n a = some a' →
      ∃ b', whileFuel g n b = some b' ∧ R a' b' := by
  intro n
  induction n with
  | zero => intro a a' b _ h; exact absurd h (by simp [whileFuel])
  | succ n ih =>
      intro a a' b hab h
      cases hstep : f a with
      | none =>
          rw [whileFuel_exit hstep] at h
          obtain rfl := Option.some.inj h
          exact ⟨b, whileFuel_exit (hnone a b hab hstep) n, hab⟩
      | some a₁ =>
          rw [whileFuel_step hstep] at h
          obtain ⟨b₁, hb, hrel⟩ := hsome a b a₁ hab hstep
          rw [whileFuel_step hb]
          exact ih hrel h

/-- **Termination rule.** A measure that every step decreases bounds the number
of iterations. -/
theorem whileFuel_returns {step : σ → Option σ} (I : σ → Prop) (μ : σ → ℕ)
    (hI : ∀ s s', I s → step s = some s' → I s' ∧ μ s' < μ s) :
    ∀ {s : σ}, I s → ∃ t, Returns (fun n => whileFuel step n s) t := by
  suffices h : ∀ k s, μ s ≤ k → I s → ∃ t, whileFuel step (k + 1) s = some t by
    intro s hs
    obtain ⟨t, ht⟩ := h (μ s) s le_rfl hs
    exact ⟨t, (whileFuel_mono step s).returns ht⟩
  intro k
  induction k with
  | zero =>
      intro s hμ hs
      cases hstep : step s with
      | none => exact ⟨s, whileFuel_exit hstep 0⟩
      | some s' => have := (hI s s' hs hstep).2; omega
  | succ k ih =>
      intro s hμ hs
      cases hstep : step s with
      | none => exact ⟨s, whileFuel_exit hstep _⟩
      | some s' =>
          obtain ⟨hs', hlt⟩ := hI s s' hs hstep
          obtain ⟨t, ht⟩ := ih s' (by omega) hs'
          exact ⟨t, by rw [whileFuel_step hstep]; exact ht⟩

theorem whileFuel_isSome_mono {step : σ → Option σ} {s : σ} {n m : ℕ}
    (h : (whileFuel step n s).isSome) (hle : n ≤ m) : (whileFuel step m s).isSome := by
  obtain ⟨t, ht⟩ := Option.isSome_iff_exists.mp h
  exact Option.isSome_iff_exists.mpr ⟨t, whileFuel_mono step s n m t ht hle⟩

/-- **Work rule.** A budget of which every step spends some bounds the number of
iterations. -/
theorem whileFuel_within {step : σ → Option σ} (I : ℕ → σ → Prop)
    (hI : ∀ k s s', I k s → step s = some s' → ∃ j, j < k ∧ I j s') :
    ∀ {k : ℕ} {s : σ}, I k s → (whileFuel step (k + 1) s).isSome := by
  intro k
  induction k using Nat.strong_induction_on with
  | _ k ih =>
      intro s hs
      cases hstep : step s with
      | none =>
          rw [whileFuel_exit hstep]
          rfl
      | some s' =>
          obtain ⟨j, hj, hs'⟩ := hI k s s' hs hstep
          rw [whileFuel_step hstep]
          exact whileFuel_isSome_mono (ih j hj hs') hj

/-- A loop that needs `n` steps goes through `n` states that have a next one. -/
theorem exists_visited {step : σ → Option σ} {K : Finset σ}
    (hK : ∀ s s', step s = some s' → s ∈ K) : ∀ (n : ℕ) (s : σ),
    (whileFuel step (n + 1) s).isSome → whileFuel step n s = none →
      ∃ S, S ⊆ K ∧ S.card = n ∧ ∀ x ∈ S, (whileFuel step (n + 1) x).isSome := by
  classical
  intro n
  induction n with
  | zero => exact fun s _ _ => ⟨∅, Finset.empty_subset K, rfl, by simp⟩
  | succ n ih =>
      intro s hends hlate
      cases hstep : step s with
      | none => simp [whileFuel_exit hstep] at hlate
      | some s' =>
          rw [whileFuel_step hstep] at hends hlate
          obtain ⟨S, hSK, hcard, hS⟩ := ih s' hends hlate
          -- the states that come after `s` need less fuel than it does
          have hs : s ∉ S := by
            intro hmem
            have hsome := hS s hmem
            rw [whileFuel_step hstep, hlate] at hsome
            cases hsome
          refine ⟨insert s S, Finset.insert_subset (hK s s' hstep) hSK, ?_, fun x hx => ?_⟩
          · rw [Finset.card_insert_of_notMem hs, hcard]
          · rcases Finset.mem_insert.mp hx with rfl | hx
            · rw [whileFuel_step hstep]
              exact hends
            · exact whileFuel_isSome_mono (hS x hx) (Nat.le_succ _)

/-- A loop that ends visits no state twice, so it needs no more steps than there are
states. -/
theorem whileFuel_within_card {step : σ → Option σ} {K : Finset σ}
    (hK : ∀ s s', step s = some s' → s ∈ K) {s t : σ}
    (h : Returns (fun n => whileFuel step n s) t) : whileFuel step (K.card + 1) s = some t := by
  classical
  have hex : ∃ n, (whileFuel step n s).isSome := by
    obtain ⟨N, hN⟩ := h
    exact ⟨N, Option.isSome_iff_exists.mpr ⟨t, hN N le_rfl⟩⟩
  obtain ⟨m, hsome, hleast⟩ : ∃ m, (whileFuel step m s).isSome ∧
      ∀ k, k < m → whileFuel step k s = none :=
    ⟨Nat.find hex, Nat.find_spec hex, fun k hk =>
      Option.not_isSome_iff_eq_none.mp (Nat.find_min hex hk)⟩
  cases m with
  | zero => simp [whileFuel] at hsome
  | succ n =>
      obtain ⟨S, hSK, hcard, -⟩ :=
        exists_visited hK n s hsome (hleast n (Nat.lt_succ_self n))
      have hle : n ≤ K.card := hcard ▸ Finset.card_le_card hSK
      obtain ⟨t', ht'⟩ := Option.isSome_iff_exists.mp
        (whileFuel_isSome_mono hsome (Nat.succ_le_succ hle))
      obtain rfl := h.unique ((whileFuel_mono step s).returns ht')
      exact ht'

/-- **Divergence rule.** A set of states that the loop never leaves and in which
the guard never fails is never exited, whatever the fuel. -/
theorem whileFuel_diverges {step : σ → Option σ} (I : σ → Prop)
    (hI : ∀ s, I s → ∃ s', step s = some s' ∧ I s') :
    ∀ (n : ℕ) {s : σ}, I s → whileFuel step n s = none := by
  intro n
  induction n with
  | zero => intro s _; rfl
  | succ n ih =>
      intro s hs
      obtain ⟨s', hstep, hs'⟩ := hI s hs
      rw [whileFuel_step hstep]
      exact ih hs'

/-- **Two-loop rule.** A relation kept by some move of one loop, of the other or
of both, wherever they are not both done, relates the two exits. -/
theorem whileFuel_related {f : σ → Option σ} {g : τ → Option τ}
    (R : σ → τ → Prop)
    (hR : ∀ a b, R a b →
      (f a = none ∧ g b = none) ∨
      (∃ a', f a = some a' ∧ R a' b) ∨
      (∃ b', g b = some b' ∧ R a b') ∨
      (∃ a' b', f a = some a' ∧ g b = some b' ∧ R a' b')) :
    ∀ {n m : ℕ} {a : σ} {b : τ} {x : σ} {y : τ}, R a b →
      whileFuel f n a = some x → whileFuel g m b = some y → R x y := by
  suffices h : ∀ k n m a b x y, n + m = k → R a b →
      whileFuel f n a = some x → whileFuel g m b = some y → R x y by
    intro n m a b x y hab hx hy
    exact h (n + m) n m a b x y rfl hab hx hy
  intro k
  -- the fuel of the two loops together is what each move spends
  induction k using Nat.strong_induction_on with
  | _ k ih =>
      intro n m a b x y hk hab hx hy
      cases n with
      | zero => exact absurd hx (by simp [whileFuel])
      | succ n =>
      cases m with
      | zero => exact absurd hy (by simp [whileFuel])
      | succ m =>
      rcases hR a b hab with ⟨ha, hb⟩ | ⟨a', ha, hab'⟩ | ⟨b', hb, hab'⟩ |
          ⟨a', b', ha, hb, hab'⟩
      · rw [whileFuel_exit ha] at hx
        rw [whileFuel_exit hb] at hy
        obtain rfl := Option.some.inj hx
        obtain rfl := Option.some.inj hy
        exact hab
      · rw [whileFuel_step ha] at hx
        exact ih (n + (m + 1)) (by omega) n (m + 1) a' b x y rfl hab' hx hy
      · rw [whileFuel_step hb] at hy
        exact ih (n + 1 + m) (by omega) (n + 1) m a b' x y rfl hab' hx hy
      · rw [whileFuel_step ha] at hx
        rw [whileFuel_step hb] at hy
        exact ih (n + m) (by omega) n m a' b' x y rfl hab' hx hy

/-- **Target rule.** Where every step away from the target `d` lowers a measure,
given as a relation, iterating the step reaches `d` and visits no state twice. -/
theorem iterate_reaches {f : σ → σ} {d : σ} (D : σ → ℕ → Prop)
    (huniq : ∀ s x y, D s x → D s y → x = y)
    (hstep : ∀ s x, D s x → s ≠ d → ∃ y, y < x ∧ D (f s) y) :
    ∀ (x : ℕ) (s : σ), D s x → ∃ n, f^[n] s = d ∧ (∀ i, i < n → f^[i] s ≠ d) ∧
      (∀ i, i ≤ n → ∃ y, y ≤ x ∧ D (f^[i] s) y) ∧
      ∀ i j, i < j → j ≤ n → f^[i] s ≠ f^[j] s := by
  intro x
  induction x using Nat.strong_induction_on with
  | _ x ih =>
      intro s hs
      by_cases hsd : s = d
      · refine ⟨0, hsd, fun i hi => absurd hi (by omega), fun i hi => ?_,
          fun i j hij hj => absurd hij (by omega)⟩
        obtain rfl : i = 0 := by omega
        exact ⟨x, le_rfl, hs⟩
      · obtain ⟨y, hy, hfs⟩ := hstep s x hs hsd
        obtain ⟨n, hn, hne, hD, hinj⟩ := ih y hy (f s) hfs
        refine ⟨n + 1, hn, ?_, ?_, ?_⟩
        · intro i hi
          cases i with
          | zero => exact hsd
          | succ i => exact hne i (by omega)
        · intro i hi
          cases i with
          | zero => exact ⟨x, le_rfl, hs⟩
          | succ i =>
              obtain ⟨z, hz, hDz⟩ := hD i (by omega)
              exact ⟨z, by omega, hDz⟩
        · intro i j hij hj
          obtain ⟨j, rfl⟩ : ∃ k, j = k + 1 := ⟨j - 1, by omega⟩
          cases i with
          | zero =>
              -- the measure has gone down since the start
              intro heq
              obtain ⟨z, hz, hDz⟩ := hD j (by omega)
              have := huniq s x z hs (by rw [show s = f^[j] (f s) from heq]; exact hDz)
              omega
          | succ i => exact hinj i j (by omega) (by omega)

end Foundation
