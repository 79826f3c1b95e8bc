import Backpressure.Proofs.Binary64.Order

/-!
# Whole numbers among the doubles

Sums, differences, products and floored quotients of whole doubles are whole
again, and a bound that is a power of two is not exceeded by rounding.  A sum
with something far below the last place of the bound does not exceed it at all,
so that even counters that grow without end stay finite.
-/

namespace Backpressure
namespace Binary64

/-! ## Operations on finite doubles -/

theorem add_finite (first second : ℚ) :
    finite first + finite second = round (first + second) := rfl

theorem subtract_finite (first second : ℚ) :
    finite first - finite second = round (first - second) := by
  change add (finite first)
    (if second = 0 then negativeZero else finite (-second)) = _
  split
  · next zero =>
      change Binary64.round (first + 0) = _
      rw [zero, add_zero, sub_zero]
  · change Binary64.round (first + -second) = _
    rw [sub_eq_add_neg]

theorem multiply_finite
    {first second : ℚ}
    (first_nonneg : 0 ≤ first)
    (second_nonneg : 0 ≤ second) :
    finite first * finite second = round (first * second) := by
  change multiply (finite first) (finite second) = _
  simp only [multiply, toRat_finite, isNegative, not_lt.mpr first_nonneg,
    not_lt.mpr second_nonneg, decide_false, bne_self_eq_false]
  split
  · next vanishes =>
      rw [vanishes, round_zero]
      rfl
  · rfl

theorem divide_finite
    {first second : ℚ}
    (first_nonneg : 0 ≤ first)
    (second_pos : 0 < second) :
    finite first / finite second = round (first / second) := by
  change divide (finite first) (finite second) = _
  simp only [divide, toRat_finite, isNegative, not_lt.mpr first_nonneg,
    not_lt.mpr second_pos.le, decide_false, bne_self_eq_false,
    if_neg second_pos.ne']
  split
  · next vanishes =>
      rw [vanishes, zero_div, round_zero]
      rfl
  · rfl

theorem floor_finite (value : ℚ) :
    Arithmetic.floor (finite value) = finite (⌊value⌋ : ℤ) := rfl

/-- Differences of natural numbers of at most 53 bits are exact. -/
theorem subtract_natCast
    {first second : ℕ}
    (first_lt : first < 2 ^ 53)
    (second_lt : second < 2 ^ 53) :
    finite first - finite second = finite (first - second) := by
  have small : |(first : ℤ) - second| < 2 ^ 53 :=
    abs_lt.mpr ⟨by omega, by omega⟩
  have round_eq := round_intCast small
  push_cast at round_eq
  rw [subtract_finite, round_eq]

/-- The residue of a difference of numbers of the ring. -/
theorem residue_subtract
    {first second : ℕ}
    (first_lt : first < Arithmetic.ringSize)
    (second_lt : second < Arithmetic.ringSize) :
    Arithmetic.residue (finite first - finite second) =
      finite ((first + Arithmetic.ringSize - second) %
        Arithmetic.ringSize : ℕ) := by
  have whole := residue_finite_intCast ((first : ℤ) - second)
  unfold Arithmetic.ringSize at *
  have natural : ((first : ℤ) - second) % (4294967296 : ℕ) =
      ((first + 4294967296 - second) % 4294967296 : ℕ) := by
    omega
  rw [natural, Int.cast_natCast] at whole
  rw [subtract_natCast (by omega) (by omega), ← whole]
  push_cast
  rfl

/-- A negative number is not larger than zero even after rounding. -/
theorem larger_zero_round_of_neg
    {value : ℚ}
    (negative : value < 0) :
    Arithmetic.larger 0 (round value) = 0 := by
  have sign : decide (value < 0) = true := decide_eq_true negative
  have unit_pos := spacing_pos (magnitude value)
  have quotient_neg : value / spacing (magnitude value) < 0 :=
    div_neg_of_neg_of_pos negative unit_pos
  have nearest_nonpos : nearestEven (value / spacing (magnitude value)) ≤ 0 :=
    nearestEven_le (by push_cast; linarith)
  have result_nonpos :
      (nearestEven (value / spacing (magnitude value)) : ℚ) *
        spacing (magnitude value) ≤ 0 :=
    mul_nonpos_of_nonpos_of_nonneg (by exact_mod_cast nearest_nonpos)
      unit_pos.le
  rw [literal_zero]
  unfold round
  simp only [if_neg negative.ne, sign]
  split_ifs
  · rfl
  · rfl
  · rw [larger_finite, max_eq_left result_nonpos]

/-- A rounded result is not above the largest double. -/
theorem le_largest_of_round
    {value result : ℚ}
    (round_eq : round value = finite result) :
    result ≤ largest := by
  obtain negative | rfl | positive := lt_trichotomy value 0
  · have clipped := larger_zero_round_of_neg negative
    rw [round_eq, literal_zero, larger_finite, finite.injEq, max_eq_left_iff]
      at clipped
    exact clipped.trans largest_nonneg
  · rw [round_zero, finite.injEq] at round_eq
    rw [← round_eq]
    exact largest_nonneg
  · rw [round_of_pos positive] at round_eq
    split at round_eq
    · contradiction
    · next small =>
        rw [finite.injEq] at round_eq
        rw [← round_eq]
        exact gridValue_le_largest_of_lt positive (not_le.mp small)

/-- A difference that has a value is not above the largest double. -/
theorem le_largest_of_subtract
    {first second : Binary64}
    {result : ℚ}
    (subtract_eq : first - second = finite result) :
    result ≤ largest := by
  change add first second.negate = finite result at subtract_eq
  generalize second.negate = other at subtract_eq
  unfold add at subtract_eq
  split at subtract_eq
  case h_3 => split at subtract_eq <;> contradiction
  case h_7 => exact le_largest_of_round subtract_eq
  all_goals contradiction

/-! ## Counts -/

/-- A natural number, or the infinity that stands for one too large. -/
def Count (value : Binary64) : Prop :=
  value = infinity false ∨ ∃ number : ℕ, value = finite number

namespace Count

theorem round (number : ℕ) : Count (round number) := by
  obtain endless | round_eq := round_of_nonneg (Nat.cast_nonneg number)
  · exact .inl endless
  · obtain ⟨result, result_eq⟩ := exists_natCast_eq_gridValue number
    rw [result_eq] at round_eq
    exact .inr ⟨result, round_eq⟩

theorem multiply (first second : ℕ) :
    Count (finite first * finite second) := by
  rw [multiply_finite (Nat.cast_nonneg first) (Nat.cast_nonneg second),
    ← Nat.cast_mul]
  exact round _

theorem floor_divide
    {value : Binary64}
    {divisor : ℕ}
    (count : Count value)
    (positive : 1 ≤ divisor) :
    Count (Arithmetic.floor (value / finite divisor)) := by
  have divisor_pos : (0 : ℚ) < divisor := by exact_mod_cast positive
  obtain rfl | ⟨number, rfl⟩ := count
  · left
    change Arithmetic.floor
      (infinity (false != decide ((divisor : ℚ) < 0))) = _
    rw [decide_eq_false (not_lt.mpr divisor_pos.le)]
    rfl
  · have quotient_nonneg : (0 : ℚ) ≤ number / divisor := by positivity
    rw [divide_finite (Nat.cast_nonneg number) divisor_pos]
    obtain endless | round_eq := round_of_nonneg quotient_nonneg
    · left
      rw [endless]
      rfl
    · right
      have floor_nonneg : 0 ≤ ⌊gridValue ((number : ℚ) / divisor)⌋ :=
        Int.floor_nonneg.mpr (gridValue_nonneg quotient_nonneg)
      obtain ⟨result, result_eq⟩ := Int.eq_ofNat_of_zero_le floor_nonneg
      rw [round_eq, floor_finite, result_eq]
      exact ⟨result, by simp⟩

theorem ne_nan
    {value : Binary64}
    (count : Count value) :
    value ≠ nan := by
  obtain rfl | ⟨number, rfl⟩ := count
  · simp
  · simp

theorem zero : Count 0 :=
  .inr ⟨0, by simp⟩

theorem add
    {first second : Binary64}
    (firstCount : Count first)
    (secondCount : Count second) :
    Count (first + second) := by
  obtain rfl | ⟨one, rfl⟩ := firstCount
  · left
    obtain rfl | ⟨two, rfl⟩ := secondCount
    · rfl
    · rfl
  · obtain rfl | ⟨two, rfl⟩ := secondCount
    · exact .inl rfl
    · rw [add_finite, ← Nat.cast_add]
      exact round _

/-- What is left after something not larger is taken away. -/
theorem subtract
    {value : Binary64}
    {number : ℕ}
    (count : Count value)
    (ordered : finite number ≤ value) :
    Count (value - finite number) := by
  obtain rfl | ⟨whole, rfl⟩ := count
  · left
    change Binary64.add (infinity false) (negate (finite number)) = _
    unfold negate
    dsimp only
    split
    · rfl
    · rfl
  · have natural : number ≤ whole := by
      rw [finite_le_finite] at ordered
      exact_mod_cast ordered
    rw [subtract_finite, ← Nat.cast_sub natural]
    exact round _

theorem le_endless
    {value : Binary64}
    (count : Count value) :
    value ≤ infinity false := by
  obtain rfl | ⟨number, rfl⟩ := count
  · rfl
  · rfl

/-- A count that is below another one is finite. -/
theorem exists_natCast_of_not_le
    {first second : Binary64}
    (firstCount : Count first)
    (secondCount : Count second)
    (not_le : ¬first ≤ second) :
    ∃ number : ℕ, second = finite number ∧ finite number ≤ first := by
  obtain rfl | ⟨two, rfl⟩ := secondCount
  · exact absurd firstCount.le_endless not_le
  · refine ⟨two, rfl, ?_⟩
    obtain rfl | ⟨one, rfl⟩ := firstCount
    · rfl
    · rw [finite_le_finite] at not_le ⊢
      exact le_of_not_ge not_le

theorem natCast_le_of_not_lt
    {value : Binary64}
    {number : ℕ}
    (count : Count value)
    (not_lt : ¬value < finite number) :
    finite number ≤ value := by
  obtain rfl | ⟨whole, rfl⟩ := count
  · rfl
  · rw [finite_lt_finite] at not_lt
    rw [finite_le_finite]
    exact le_of_not_gt not_lt

/-- A positive number of times an infinity is infinite. -/
theorem multiply_natCast
    {value : Binary64}
    {number : ℕ}
    (count : Count value)
    (positive : 1 ≤ number) :
    Count (value * finite number) := by
  obtain rfl | ⟨whole, rfl⟩ := count
  · have number_pos : (0 : ℚ) < number := by exact_mod_cast positive
    left
    change (if (number : ℚ) = 0 then nan
      else infinity (false != decide ((number : ℚ) < 0))) = _
    rw [if_neg number_pos.ne', decide_eq_false (not_lt.mpr number_pos.le)]
    rfl
  · exact multiply whole number

end Count

/-! ## Whole doubles -/

/-- A natural number that is not above the largest double. -/
def WholeFinite (value : Binary64) : Prop :=
  ∃ number : ℕ, value = finite number ∧ (number : ℚ) ≤ largest

namespace WholeFinite

variable {first second : Binary64}

theorem one : WholeFinite 1 := by
  refine ⟨1, by simp, ?_⟩
  rw [Nat.cast_one]
  have one_le : (1 : ℚ) ≤ 2 ^ (1023 : ℤ) :=
    one_le_zpow₀ (by norm_num) (by norm_num)
  exact one_le.trans two_zpow_le_largest

theorem larger
    (firstWhole : WholeFinite first)
    (secondWhole : WholeFinite second) :
    WholeFinite (Arithmetic.larger first second) := by
  obtain ⟨one, rfl, one_le⟩ := firstWhole
  obtain ⟨two, rfl, two_le⟩ := secondWhole
  rw [larger_finite, ← Nat.cast_max]
  refine ⟨_, rfl, ?_⟩
  rw [Nat.cast_max]
  exact max_le one_le two_le

/-- What is left after something smaller is taken away. -/
theorem subtract
    (whole : WholeFinite first)
    (secondCount : Count second)
    (ordered : second ≤ first) :
    WholeFinite (first - second) := by
  obtain ⟨one, rfl, one_le⟩ := whole
  obtain rfl | ⟨two, rfl⟩ := secondCount
  · contradiction
  have natural : two ≤ one := by
    rw [finite_le_finite] at ordered
    exact_mod_cast ordered
  have bounded : ((one - two : ℕ) : ℚ) ≤ largest :=
    le_trans (Nat.cast_le.mpr (Nat.sub_le one two)) one_le
  obtain ⟨round_eq, result_le⟩ :=
    round_eq_gridValue_of_le_largest (Nat.cast_nonneg (one - two)) bounded
  obtain ⟨result, result_eq⟩ := exists_natCast_eq_gridValue (one - two)
  rw [subtract_finite, ← Nat.cast_sub natural]
  rw [result_eq] at round_eq result_le
  exact ⟨result, round_eq, result_le⟩

end WholeFinite

/-- A natural number that is at most a power of two. -/
def WholeUpTo (exponent : ℤ) (value : Binary64) : Prop :=
  ∃ number : ℕ, value = finite number ∧ (number : ℚ) ≤ 2 ^ exponent

namespace WholeUpTo

variable {exponent other : ℤ} {first second : Binary64}

theorem mono
    (whole : WholeUpTo exponent first)
    (bounded : exponent ≤ other) :
    WholeUpTo other first := by
  obtain ⟨number, rfl, number_le⟩ := whole
  exact ⟨number, rfl, number_le.trans (two_zpow_le_iff.mpr bounded)⟩

theorem zero : WholeUpTo exponent 0 :=
  ⟨0, by simp, by simpa using (two_zpow_pos exponent).le⟩

theorem count (whole : WholeUpTo exponent first) : Count first := by
  obtain ⟨number, first_eq, _⟩ := whole
  exact .inr ⟨number, first_eq⟩

/-- Counts are ordered. -/
theorem le_of_not_le
    (whole : WholeUpTo exponent first)
    (secondCount : Count second)
    (not_le : ¬first ≤ second) :
    second ≤ first := by
  obtain ⟨one, rfl, _⟩ := whole
  obtain rfl | ⟨two, rfl⟩ := secondCount
  · exact absurd rfl not_le
  · rw [finite_le_finite] at not_le ⊢
    exact le_of_not_ge not_le

theorem le_of_not_lt
    (whole : WholeUpTo exponent first)
    (secondCount : Count second)
    (not_lt : ¬first < second) :
    second ≤ first := by
  obtain ⟨one, rfl, _⟩ := whole
  obtain rfl | ⟨two, rfl⟩ := secondCount
  · exact absurd rfl not_lt
  · rw [finite_lt_finite] at not_lt
    rw [finite_le_finite]
    exact le_of_not_gt not_lt

/-- Rounding a natural number keeps it whole, and a power of two above it is
not exceeded. -/
theorem round
    {number : ℕ}
    (nonneg : 0 ≤ exponent)
    (representable : exponent ≤ 1023)
    (bounded : (number : ℚ) ≤ 2 ^ exponent + 2 ^ (exponent - 54)) :
    WholeUpTo exponent (round number) := by
  obtain ⟨round_eq, result_le⟩ := round_eq_gridValue (Nat.cast_nonneg number)
    (by omega) representable bounded
  obtain ⟨result, result_eq⟩ := exists_natCast_eq_gridValue number
  rw [result_eq] at round_eq result_le
  exact ⟨result, round_eq, result_le⟩

/-- The bound absorbs what is far below its last place. -/
theorem add_small
    (nonneg : 0 ≤ exponent)
    (representable : exponent ≤ 1023)
    (small : other ≤ exponent - 54)
    (firstWhole : WholeUpTo exponent first)
    (secondWhole : WholeUpTo other second) :
    WholeUpTo exponent (first + second) := by
  obtain ⟨one, rfl, one_le⟩ := firstWhole
  obtain ⟨two, rfl, two_le⟩ := secondWhole
  rw [add_finite, ← Nat.cast_add]
  apply round nonneg representable
  have := two_zpow_le_iff.mpr small
  push_cast
  linarith

theorem add
    (nonneg : 0 ≤ exponent)
    (representable : exponent ≤ 1022)
    (firstWhole : WholeUpTo exponent first)
    (secondWhole : WholeUpTo exponent second) :
    WholeUpTo (exponent + 1) (first + second) := by
  obtain ⟨one, rfl, one_le⟩ := firstWhole
  obtain ⟨two, rfl, two_le⟩ := secondWhole
  rw [add_finite, ← Nat.cast_add]
  apply round (by omega) (by omega)
  have := two_zpow_pos (exponent + 1 - 54)
  rw [zpow_add_one₀ two_ne_zero]
  push_cast
  linarith

/-- What is left after something smaller is taken away. -/
theorem subtract
    (nonneg : 0 ≤ exponent)
    (representable : exponent ≤ 1023)
    (whole : WholeUpTo exponent first)
    (secondCount : Count second)
    (ordered : second ≤ first) :
    WholeUpTo exponent (first - second) := by
  obtain ⟨one, rfl, one_le⟩ := whole
  obtain rfl | ⟨two, rfl⟩ := secondCount
  · contradiction
  have natural : two ≤ one := by
    rw [finite_le_finite] at ordered
    exact_mod_cast ordered
  rw [subtract_finite, ← Nat.cast_sub natural]
  apply round nonneg representable
  have := two_zpow_pos (exponent - 54)
  have : (0 : ℚ) ≤ two := Nat.cast_nonneg two
  push_cast [natural]
  linarith

/-- Nothing is left after something larger is taken away. -/
theorem larger_zero_subtract_of_not_le
    (whole : WholeUpTo exponent first)
    (secondCount : Count second)
    (not_le : ¬second ≤ first) :
    Arithmetic.larger 0 (first - second) = 0 := by
  obtain ⟨one, rfl, _⟩ := whole
  obtain rfl | ⟨two, rfl⟩ := secondCount
  · rfl
  · have negative : (one : ℚ) - two < 0 := by
      rw [finite_le_finite] at not_le
      linarith
    rw [subtract_finite, larger_zero_round_of_neg negative]

/-- What is left after something is taken away, or nothing. -/
theorem larger_zero_subtract
    (nonneg : 0 ≤ exponent)
    (representable : exponent ≤ 1023)
    (whole : WholeUpTo exponent first)
    (secondCount : Count second) :
    WholeUpTo exponent (Arithmetic.larger 0 (first - second)) := by
  by_cases ordered : second ≤ first
  · obtain ⟨number, number_eq, number_le⟩ :=
      subtract nonneg representable whole secondCount ordered
    rw [number_eq, literal_zero, larger_finite,
      max_eq_right (Nat.cast_nonneg number)]
    exact ⟨number, rfl, number_le⟩
  · rw [whole.larger_zero_subtract_of_not_le secondCount ordered]
    exact zero

theorem multiply
    (nonneg : 0 ≤ exponent + other)
    (representable : exponent + other ≤ 1023)
    (firstWhole : WholeUpTo exponent first)
    (secondWhole : WholeUpTo other second) :
    WholeUpTo (exponent + other) (first * second) := by
  obtain ⟨one, rfl, one_le⟩ := firstWhole
  obtain ⟨two, rfl, two_le⟩ := secondWhole
  rw [multiply_finite (Nat.cast_nonneg one) (Nat.cast_nonneg two),
    ← Nat.cast_mul]
  apply round nonneg representable
  have := two_zpow_pos (exponent + other - 54)
  have product_le : (one : ℚ) * two ≤ 2 ^ exponent * 2 ^ other := by
    gcongr
  rw [← zpow_add₀ two_ne_zero] at product_le
  push_cast
  linarith

/-- The floor of a rounded quotient by a positive whole number. -/
theorem floor_divide
    {divisor : ℕ}
    (nonneg : 0 ≤ exponent)
    (representable : exponent ≤ 1023)
    (firstWhole : WholeUpTo exponent first)
    (positive : 1 ≤ divisor) :
    WholeUpTo exponent (Arithmetic.floor (first / finite divisor)) := by
  obtain ⟨one, rfl, one_le⟩ := firstWhole
  have divisor_ge : (1 : ℚ) ≤ divisor := by exact_mod_cast positive
  have quotient_nonneg : (0 : ℚ) ≤ one / divisor := by positivity
  have quotient_le : (one : ℚ) / divisor ≤ one :=
    div_le_self (Nat.cast_nonneg one) divisor_ge
  have bounded :
      (one : ℚ) / divisor ≤ 2 ^ exponent + 2 ^ (exponent - 54) := by
    have := two_zpow_pos (exponent - 54)
    linarith
  obtain ⟨round_eq, result_le⟩ :=
    round_eq_gridValue quotient_nonneg (by omega) representable bounded
  have floor_nonneg : 0 ≤ ⌊gridValue ((one : ℚ) / divisor)⌋ :=
    Int.floor_nonneg.mpr (gridValue_nonneg quotient_nonneg)
  obtain ⟨result, result_eq⟩ := Int.eq_ofNat_of_zero_le floor_nonneg
  rw [divide_finite (Nat.cast_nonneg one) (by linarith), round_eq,
    floor_finite, result_eq]
  refine ⟨result, by simp, ?_⟩
  have floor_le := Int.floor_le (gridValue ((one : ℚ) / divisor))
  rw [result_eq, Int.cast_natCast] at floor_le
  exact floor_le.trans result_le

theorem larger
    (firstWhole : WholeUpTo exponent first)
    (secondWhole : WholeUpTo exponent second) :
    WholeUpTo exponent (Arithmetic.larger first second) := by
  obtain ⟨one, rfl, one_le⟩ := firstWhole
  obtain ⟨two, rfl, two_le⟩ := secondWhole
  rw [larger_finite, ← Nat.cast_max]
  refine ⟨_, rfl, ?_⟩
  rw [Nat.cast_max]
  exact max_le one_le two_le

end WholeUpTo

end Binary64
end Backpressure
