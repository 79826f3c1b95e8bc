import Backpressure.Proofs.Binary64.Order

/-!
# The order of doubles

Apart from what is not a number, the doubles are ordered as the reals between two
infinities.  The smaller and the larger of two numbers are numbers, and so are
differences of finite numbers and of ordered ones.
-/

namespace Backpressure
namespace Binary64

/-- Whether a number has a rational value. -/
def IsFinite : Binary64 → Prop
  | finite _ => True
  | negativeZero => True
  | infinity _ => False
  | nan => False

instance : DecidablePred IsFinite
  | finite _ => isTrue trivial
  | negativeZero => isTrue trivial
  | infinity _ => isFalse id
  | nan => isFalse id

variable {first second third : Binary64}

/-! ## Places -/

/-- The place of a number among the reals and the infinities.  The zeros share
theirs. -/
noncomputable def rank : Binary64 → EReal
  | nan => ⊥
  | infinity negative => if negative then ⊥ else ⊤
  | finite value => (value : ℝ)
  | negativeZero => 0

theorem less_finite_negativeZero (value : ℚ) :
    less (finite value) negativeZero = decide (value < 0) := rfl

theorem less_negativeZero_finite (value : ℚ) :
    less negativeZero (finite value) = decide (0 < value) := rfl

theorem equal_finite_negativeZero (value : ℚ) :
    equal (finite value) negativeZero = decide (value = 0) := rfl

theorem equal_negativeZero_finite (value : ℚ) :
    equal negativeZero (finite value) = decide (0 = value) := rfl

/-- Numbers are strictly ordered by their places. -/
theorem less_iff_rank
    (firstNumber : first ≠ nan)
    (secondNumber : second ≠ nan) :
    first.less second = true ↔ first.rank < second.rank := by
  cases first with
  | nan => contradiction
  | infinity one =>
      cases second with
      | nan => contradiction
      | infinity two => cases one <;> cases two <;> simp [less, rank]
      | finite two => cases one <;> simp [less, rank]
      | negativeZero => cases one <;> simp [less, rank]
  | finite one =>
      cases second with
      | nan => contradiction
      | infinity two => cases two <;> simp [less, rank]
      | finite two => simp [rank]
      | negativeZero => simp [rank, less_finite_negativeZero]
  | negativeZero =>
      cases second with
      | nan => contradiction
      | infinity two => cases two <;> simp [less, rank]
      | finite two => simp [rank, less_negativeZero_finite]
      | negativeZero => simp [rank, less]

/-- Equal numbers share their places. -/
theorem equal_iff_rank
    (firstNumber : first ≠ nan)
    (secondNumber : second ≠ nan) :
    first.equal second = true ↔ first.rank = second.rank := by
  cases first with
  | nan => contradiction
  | infinity one =>
      cases second with
      | nan => contradiction
      | infinity two => cases one <;> cases two <;> simp [equal, rank]
      | finite two => cases one <;> simp [equal, rank]
      | negativeZero => cases one <;> simp [equal, rank]
  | finite one =>
      cases second with
      | nan => contradiction
      | infinity two => cases two <;> simp [equal, rank]
      | finite two => simp [rank]
      | negativeZero => simp [rank, equal_finite_negativeZero]
  | negativeZero =>
      cases second with
      | nan => contradiction
      | infinity two => cases two <;> simp [equal, rank]
      | finite two =>
          rw [equal_negativeZero_finite, decide_eq_true_eq, eq_comm,
            eq_comm (a := rank negativeZero)]
          simp [rank]
      | negativeZero => simp [rank, equal]

theorem le_iff_rank
    (firstNumber : first ≠ nan)
    (secondNumber : second ≠ nan) :
    first ≤ second ↔ first.rank ≤ second.rank := by
  change (first.less second || first.equal second) = true ↔ _
  rw [Bool.or_eq_true, less_iff_rank firstNumber secondNumber,
    equal_iff_rank firstNumber secondNumber, le_iff_lt_or_eq]

/-- Only numbers are ordered. -/
theorem ne_nan_of_le (ordered : first ≤ second) :
    first ≠ nan ∧ second ≠ nan := by
  constructor
  · rintro rfl
    exact not_nan_le _ ordered
  · rintro rfl
    change (first.less nan || first.equal nan) = true at ordered
    cases first <;> contradiction

protected theorem le_refl (number : first ≠ nan) : first ≤ first :=
  (le_iff_rank number number).mpr le_rfl

protected theorem le_trans (lower : first ≤ second) (upper : second ≤ third) :
    first ≤ third := by
  obtain ⟨firstNumber, secondNumber⟩ := ne_nan_of_le lower
  obtain ⟨-, thirdNumber⟩ := ne_nan_of_le upper
  rw [le_iff_rank firstNumber secondNumber] at lower
  rw [le_iff_rank secondNumber thirdNumber] at upper
  rw [le_iff_rank firstNumber thirdNumber]
  exact lower.trans upper

/-! ## The smaller and the larger number -/

/-- The smaller of two numbers is one of them and not above the other. -/
theorem smaller_cases
    (firstNumber : first ≠ nan)
    (secondNumber : second ≠ nan) :
    Arithmetic.smaller first second = first ∧ first ≤ second ∨
      Arithmetic.smaller first second = second ∧ second ≤ first := by
  have smaller_eq : Arithmetic.smaller first second =
      if first.less second then first
      else if second.less first then second
      else if first.isNegative then first
      else second := by
    cases first with
    | nan => contradiction
    | _ => cases second with
      | nan => contradiction
      | _ => rfl
  rw [smaller_eq, le_iff_rank firstNumber secondNumber,
    le_iff_rank secondNumber firstNumber]
  simp only [less_iff_rank firstNumber secondNumber,
    less_iff_rank secondNumber firstNumber]
  split_ifs with below above negative
  · exact .inl ⟨rfl, below.le⟩
  · exact .inr ⟨rfl, above.le⟩
  · exact .inl ⟨rfl, not_lt.mp above⟩
  · exact .inr ⟨rfl, not_lt.mp below⟩

/-- The larger of two numbers is one of them and not below the other. -/
theorem larger_cases
    (firstNumber : first ≠ nan)
    (secondNumber : second ≠ nan) :
    Arithmetic.larger first second = first ∧ second ≤ first ∨
      Arithmetic.larger first second = second ∧ first ≤ second := by
  have larger_eq : Arithmetic.larger first second =
      if first.less second then second
      else if second.less first then first
      else if first.isNegative then second
      else first := by
    cases first with
    | nan => contradiction
    | _ => cases second with
      | nan => contradiction
      | _ => rfl
  rw [larger_eq, le_iff_rank firstNumber secondNumber,
    le_iff_rank secondNumber firstNumber]
  simp only [less_iff_rank firstNumber secondNumber,
    less_iff_rank secondNumber firstNumber]
  split_ifs with below above negative
  · exact .inr ⟨rfl, below.le⟩
  · exact .inl ⟨rfl, above.le⟩
  · exact .inr ⟨rfl, not_lt.mp above⟩
  · exact .inl ⟨rfl, not_lt.mp below⟩

theorem larger_ne_nan
    (firstNumber : first ≠ nan)
    (secondNumber : second ≠ nan) :
    Arithmetic.larger first second ≠ nan := by
  obtain ⟨larger_eq, -⟩ | ⟨larger_eq, -⟩ :=
    larger_cases firstNumber secondNumber
  · rwa [larger_eq]
  · rwa [larger_eq]

theorem floor_ne_nan (number : first ≠ nan) : Arithmetic.floor first ≠ nan := by
  cases first with
  | nan => contradiction
  | finite value => exact fun absurd => nomatch absurd
  | _ => exact number

/-! ## Differences -/

/-- Rounding gives a number. -/
theorem round_ne_nan (value : ℚ) : round value ≠ nan := by
  simp only [round]
  split_ifs
  · simp
  · simp
  · cases decide (value < 0) <;> simp [zero]
  · simp

/-- Only infinities of different signs have no sum. -/
theorem add_ne_nan
    (firstNumber : first ≠ nan)
    (secondNumber : second ≠ nan)
    (compatible : ∀ negative, first = infinity negative →
      second ≠ infinity (!negative)) :
    add first second ≠ nan := by
  cases first with
  | nan => contradiction
  | infinity one =>
      cases second with
      | nan => contradiction
      | infinity two =>
          have same : one = two := by
            have different := compatible one rfl
            cases one <;> cases two <;> simp_all
          simp [add, same]
      | _ => simp [add]
  | finite one =>
      cases second with
      | nan => contradiction
      | infinity two => simp [add]
      | finite two => exact round_ne_nan _
      | negativeZero => exact round_ne_nan _
  | negativeZero =>
      cases second with
      | nan => contradiction
      | infinity two => simp [add]
      | finite two => exact round_ne_nan _
      | negativeZero => simp [add]

theorem negate_ne_nan (number : first ≠ nan) : first.negate ≠ nan := by
  cases first with
  | nan => contradiction
  | finite value =>
      simp only [negate]
      split_ifs <;> simp
  | _ => simp [negate]

/-- A larger number less a smaller one is a number. -/
theorem subtract_ne_nan_of_less (ordered : first < second) :
    second - first ≠ nan := by
  obtain ⟨firstNumber, secondNumber⟩ := ne_nan_of_le (le_of_below ordered)
  apply add_ne_nan secondNumber (negate_ne_nan firstNumber)
  rintro negative rfl negated
  cases first with
  | infinity one =>
      have same : one = negative := by
        simpa [negate] using negated
      rw [same] at ordered
      cases negative <;> contradiction
  | finite value =>
      simp only [negate] at negated
      split_ifs at negated
  | _ => contradiction

/-- Finite numbers have a difference. -/
theorem subtract_ne_nan_of_isFinite
    (firstFinite : first.IsFinite)
    (secondFinite : second.IsFinite) :
    first - second ≠ nan := by
  have firstNumber : first ≠ nan := by
    rintro rfl
    exact firstFinite
  have secondNumber : second ≠ nan := by
    rintro rfl
    exact secondFinite
  apply add_ne_nan firstNumber (negate_ne_nan secondNumber)
  rintro negative rfl
  contradiction

end Binary64
end Backpressure
