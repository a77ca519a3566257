import Netsim.Foundation.Binary64Range

/-!
# Floating-point numbers of Python

What a computation over `float` uses: operators that raise where Python's do, and the
comparisons and the formatting. Nothing is assumed of them, so a statement about every
instance says what follows from the control flow alone. `Binary64` is the instance that
runs, on a given `CPython`: its arithmetic is that of IEEE 754, but a square is what the C
library makes of it, and a sum is rounded as the version of the interpreter does it.
-/

namespace Foundation

inductive PyException where
  | overflowError
  | valueError
  | zeroDivisionError
deriving DecidableEq, Repr

/-- A sequence of computations that returns has not raised in the first of them. -/
theorem PyException.of_bind_eq_ok {α β : Type*} {x : Except PyException α}
    {f : α → Except PyException β} {b : β} (h : Except.bind x f = .ok b) :
    ∃ a, x = .ok a ∧ f a = .ok b := by
  cases x with
  | error e => exact nomatch h
  | ok a => exact ⟨a, rfl, h⟩

/-- After a computation that returns the next one starts. -/
theorem PyException.ok_bind {α β : Type} (a : α) (f : α → Except PyException β) :
    (Except.ok a >>= f) = f a := rfl

class PyFloat (F : Type*) where
  /-- A decimal literal. -/
  literal : ℚ → F
  ofInt : ℤ → F
  add : F → F → F
  sub : F → F → F
  mul : F → F → F
  /-- `x / y` -/
  div : F → F → Except PyException F
  /-- `x ** 2` -/
  square : F → Except PyException F
  /-- `math.sqrt` -/
  sqrt : F → Except PyException F
  /-- The built-in `sum` of a list. -/
  sum : List F → F
  lt : F → F → Bool
  le : F → F → Bool
  /-- The format `.1f`. -/
  fixed1 : F → String

namespace PyFloat

variable {F : Type*} [PyFloat F]

/-- `max(x, y)`: the first of two that compare equal, or not at all. -/
def max (x y : F) : F := if lt x y then y else x

/-- `min(x, y)` -/
def min (x y : F) : F := if lt y x then y else x

end PyFloat

/-- What an interpreter takes from its platform and its version. -/
class CPython where
  /-- `pow(x, 2.0)` of the C library, which need not round to the nearest. -/
  pow2 : Binary64 → Binary64
  /-- The built-in `sum` of a list, which compensates its rounding errors from 3.12 on. -/
  sum : List Binary64 → Binary64

namespace CPython

/-- The value of `x ** 2`. NaN, infinities, zeros and ones do not reach the library, and
the sign is dropped. -/
def squared [CPython] (x : Binary64) : Binary64 :=
  if x.isNaN then x
  else if x.isInfinite then x.abs
  else if x.isZero then .ofInt 0
  else if x.abs = .ofInt 1 then .ofInt 1
  else pow2 x.abs

/-- What can be relied on: the power of a number overflows only where its square does, and
a sum of `n` numbers is no more than `2 ^ n` times as large as they are. -/
structure Documented [CPython] : Prop where
  finite_pow2 : ∀ (k : ℕ) (x : Binary64), x.Within k → k + k < 1023 →
    (pow2 x).isInfinite = false
  within_sum : ∀ (k : ℕ) (xs : List Binary64), (∀ x ∈ xs, x.Within k) →
    k + xs.length < 1023 → (sum xs).Within (k + xs.length)

/-- Powers rounded to the nearest, and sums from left to right, from the integer 0 on. -/
@[reducible] def nearest : CPython where
  pow2 x := x.mul x
  sum xs := xs.foldl .add (.ofInt 0)

theorem within_zero (k : ℕ) : (Binary64.ofInt 0).Within k := by
  refine ⟨by decide +kernel, ?_⟩
  rw [show (Binary64.ofInt 0).units = 0 by decide +kernel]
  exact Nat.zero_le _

theorem documented_nearest : @Documented nearest :=
  let := nearest
  { finite_pow2 := fun _ _ hx hk => Binary64.isInfinite_of_finite (hx.mul hx hk).finite
    within_sum := fun k _ hxs hk => (within_zero k).foldl_add hxs hk }

/-- A number whose square is in the range has one that does not overflow. -/
theorem Documented.finite_squared [CPython] (h : Documented) {k : ℕ} {x : Binary64}
    (hx : x.Within k) (hk : k + k < 1023) : (squared x).isInfinite = false := by
  unfold squared
  rw [Binary64.isNaN_of_finite hx.finite, Binary64.isInfinite_of_finite hx.finite,
    if_neg Bool.false_ne_true, if_neg Bool.false_ne_true]
  split_ifs
  · decide +kernel
  · decide +kernel
  · exact h.finite_pow2 k x.abs ⟨hx.finite, hx.units_le⟩ hk

end CPython

instance [CPython] : PyFloat Binary64 where
  literal := .ofRat
  ofInt := .ofInt
  add := .add
  sub := .sub
  mul := .mul
  div x y := if y.isZero then .error .zeroDivisionError else .ok (.div x y)
  square x :=
    let y := CPython.squared x
    if y.isInfinite && x.isFinite then .error .overflowError else .ok y
  sqrt x :=
    if x.negative && !x.isZero && !x.isNaN then .error .valueError else .ok x.sqrt
  sum := CPython.sum
  lt := Binary64.lt
  le := Binary64.le
  fixed1 := Binary64.fixed1

namespace PyFloat

variable [CPython] (x y : Binary64)

theorem literal_binary64 (q : ℚ) : (literal q : Binary64) = .ofRat q := rfl
theorem ofInt_binary64 (n : ℤ) : (ofInt n : Binary64) = .ofInt n := rfl
theorem sub_binary64 : sub x y = Binary64.sub x y := rfl
theorem lt_binary64 : lt x y = Binary64.lt x y := rfl
theorem le_binary64 : le x y = Binary64.le x y := rfl

theorem div_binary64 :
    div x y = if y.isZero then .error .zeroDivisionError else .ok (Binary64.div x y) := rfl

theorem square_binary64 :
    square x = if (CPython.squared x).isInfinite && x.isFinite then .error .overflowError
      else .ok (CPython.squared x) := rfl

theorem sqrt_binary64 :
    sqrt x = if x.negative && !x.isZero && !x.isNaN then .error .valueError
      else .ok (Binary64.sqrt x) := rfl

end PyFloat

/-- Exact rational arithmetic. The square root and the formatting have no exact form and
are arbitrary. -/
@[reducible] def PyFloat.exact (sqrt : ℚ → Except PyException ℚ) (fixed1 : ℚ → String) :
    PyFloat ℚ where
  literal := id
  ofInt n := n
  add x y := x + y
  sub x y := x - y
  mul x y := x * y
  div x y := if y = 0 then .error .zeroDivisionError else .ok (x / y)
  square x := .ok (x ^ 2)
  sqrt := sqrt
  sum xs := xs.sum
  lt x y := decide (x < y)
  le x y := decide (x ≤ y)
  fixed1 := fixed1

end Foundation
