import Mathlib
import Backpressure.Binary64.Arithmetic
import Backpressure.Proofs.Binary64.Rounding
import Backpressure.Proofs.Exact.Whole

/-!
# Order

Comparisons of finite doubles are comparisons of their values, and literals are
the numbers that they spell.
-/

namespace Backpressure
namespace Binary64

/-! ## Literals -/

/-- Natural numbers of at most 53 bits are doubles. -/
theorem natCast_eq
    {number : ℕ}
    (small : number < 2 ^ 53) :
    (number : Binary64) = finite number :=
  round_natCast small

/-- So is the power of two after them, beyond which doubles skip every other whole
number. -/
theorem round_natCast_of_le
    {number : ℕ}
    (bounded : number ≤ 2 ^ 53) :
    round (number : ℚ) = finite number := by
  obtain rfl | small := Nat.eq_or_lt_of_le bounded
  · decide +kernel
  · exact round_natCast small

theorem natCast_eq_of_le
    {number : ℕ}
    (bounded : number ≤ 2 ^ 53) :
    (number : Binary64) = finite number :=
  round_natCast_of_le bounded

@[simp] theorem literal_zero : (0 : Binary64) = finite 0 :=
  round_zero

@[simp] theorem literal_one : (1 : Binary64) = finite 1 := by
  have one_eq : round ((1 : ℕ) : ℚ) = finite ((1 : ℕ) : ℚ) :=
    round_natCast (by norm_num)
  rw [Nat.cast_one] at one_eq
  exact one_eq

theorem literal_two : (2 : Binary64) = finite 2 :=
  round_natCast (show 2 < 2 ^ 53 by norm_num)

/-! ## Comparisons -/

@[simp] theorem less_finite (first second : ℚ) :
    less (finite first) (finite second) = decide (first < second) := rfl

@[simp] theorem equal_finite (first second : ℚ) :
    equal (finite first) (finite second) = decide (first = second) := rfl

@[simp] theorem finite_lt_finite (first second : ℚ) :
    finite first < finite second ↔ first < second := by
  change less (finite first) (finite second) = true ↔ first < second
  simp

@[simp] theorem finite_le_finite (first second : ℚ) :
    finite first ≤ finite second ↔ first ≤ second := by
  change lessOrEqual (finite first) (finite second) = true ↔ first ≤ second
  simp [lessOrEqual, le_iff_lt_or_eq]

theorem le_of_below
    {first second : Binary64}
    (below : first < second) :
    first ≤ second := by
  change (first.less second || first.equal second) = true
  rw [show first.less second = true from below, Bool.true_or]

@[simp] theorem finite_beq_finite (first second : ℚ) :
    (finite first == finite second) = decide (first = second) := rfl

@[simp] theorem not_nan_le (value : Binary64) : ¬nan ≤ value := by
  change ¬lessOrEqual nan value = true
  simp [lessOrEqual, less, equal]

@[simp] theorem smaller_finite (first second : ℚ) :
    Arithmetic.smaller (finite first) (finite second) =
      finite (min first second) := by
  change smaller (finite first) (finite second) = _
  simp only [smaller, less_finite, decide_eq_true_eq]
  split_ifs with below above negative
  · rw [min_eq_left below.le]
  · rw [min_eq_right above.le]
  · rw [le_antisymm (not_lt.mp above) (not_lt.mp below), min_self]
  · rw [le_antisymm (not_lt.mp above) (not_lt.mp below), min_self]

@[simp] theorem larger_finite (first second : ℚ) :
    Arithmetic.larger (finite first) (finite second) =
      finite (max first second) := by
  change larger (finite first) (finite second) = _
  simp only [larger, less_finite, decide_eq_true_eq]
  split_ifs with below above negative
  · rw [max_eq_right below.le]
  · rw [max_eq_left above.le]
  · rw [le_antisymm (not_lt.mp above) (not_lt.mp below), max_self]
  · rw [le_antisymm (not_lt.mp above) (not_lt.mp below), max_self]

@[simp] theorem smaller_nan_left (value : Binary64) :
    Arithmetic.smaller nan value = nan := by
  cases value <;> rfl

@[simp] theorem smaller_nan_right (value : Binary64) :
    Arithmetic.smaller value nan = nan := by
  cases value <;> rfl

@[simp] theorem larger_nan_right (value : Binary64) :
    Arithmetic.larger value nan = nan := by
  cases value <;> rfl

/-! ## Positions on the ring -/

theorem mod_ringSize_lt (number : ℕ) :
    number % Arithmetic.ringSize < Arithmetic.ringSize :=
  Nat.mod_lt _ (by norm_num [Arithmetic.ringSize])

/-- Reducing a whole number to the ring takes its remainder. -/
theorem residue_finite_intCast (whole : ℤ) :
    Arithmetic.residue (finite whole) =
      finite ((whole % Arithmetic.ringSize : ℤ) : ℚ) := by
  change finite _ = _
  rw [toRat_finite, Arithmetic.ringResidue_intCast]

/-- A position of a ring is the position that its number stands for. -/
theorem residue_natCast
    {position : ℕ}
    (onRing : position < Arithmetic.ringSize) :
    Arithmetic.residue (position : Binary64) = finite position := by
  have small : position < 2 ^ 53 := by
    unfold Arithmetic.ringSize at onRing
    omega
  have whole := residue_finite_intCast (position : ℤ)
  rw [Int.emod_eq_of_lt (Int.natCast_nonneg position)
    (by exact_mod_cast onRing)] at whole
  rw [natCast_eq small]
  exact_mod_cast whole

end Binary64
end Backpressure
