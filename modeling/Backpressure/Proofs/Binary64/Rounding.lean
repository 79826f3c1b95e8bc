import Mathlib
import Backpressure.Binary64

/-!
# Rounding

The rounded value of a rational lies on the grid of doubles around it.  Powers
of two lie on every grid below them, so rounding never crosses one; whole
numbers stay whole, and those of at most 53 bits do not change at all.
-/

namespace Backpressure
namespace Binary64

/-! ## Exponents -/

theorem two_zpow_pos (exponent : ℤ) : (0 : ℚ) < 2 ^ exponent := by
  positivity

theorem two_zpow_le_iff {first second : ℤ} :
    (2 : ℚ) ^ first ≤ 2 ^ second ↔ first ≤ second :=
  zpow_le_zpow_iff_right₀ (by norm_num)

theorem two_zpow_lt_iff {first second : ℤ} :
    (2 : ℚ) ^ first < 2 ^ second ↔ first < second :=
  zpow_lt_zpow_iff_right₀ (by norm_num)

/-- The difference of the binary logarithms of the two parts of a fraction is
off by less than one. -/
theorem estimate_bounds
    {value : ℚ}
    (positive : 0 < value) :
    (2 : ℚ) ^ ((value.num.natAbs.log2 : ℤ) - (value.den.log2 : ℤ) - 1) ≤ value ∧
      value < 2 ^ ((value.num.natAbs.log2 : ℤ) - (value.den.log2 : ℤ) + 1) := by
  have numerator_pos : value.num.natAbs ≠ 0 := by
    have := Rat.num_pos.mpr positive
    omega
  have numerator_eq : ((value.num.natAbs : ℕ) : ℚ) = value.num := by
    have nonneg : 0 ≤ value.num := (Rat.num_pos.mpr positive).le
    rw [← Int.cast_natCast, Int.natAbs_of_nonneg nonneg]
  have denominator_pos : (0 : ℚ) < value.den := by
    exact_mod_cast value.den_pos
  have value_eq : value = (value.num.natAbs : ℚ) / value.den := by
    rw [numerator_eq, Rat.num_div_den]
  have numerator_ge : (2 : ℚ) ^ (value.num.natAbs.log2 : ℤ) ≤ value.num.natAbs := by
    rw [zpow_natCast]
    exact_mod_cast Nat.log2_self_le numerator_pos
  have numerator_lt :
      (value.num.natAbs : ℚ) < 2 ^ ((value.num.natAbs.log2 : ℤ) + 1) := by
    exact_mod_cast (Nat.lt_log2_self (n := value.num.natAbs))
  have denominator_ge : (2 : ℚ) ^ (value.den.log2 : ℤ) ≤ value.den := by
    rw [zpow_natCast]
    exact_mod_cast Nat.log2_self_le value.den_nz
  have denominator_lt : (value.den : ℚ) < 2 ^ ((value.den.log2 : ℤ) + 1) := by
    exact_mod_cast (Nat.lt_log2_self (n := value.den))
  set numeratorLog := (value.num.natAbs.log2 : ℤ)
  set denominatorLog := (value.den.log2 : ℤ)
  constructor
  · rw [value_eq, le_div_iff₀ denominator_pos]
    calc (2 : ℚ) ^ (numeratorLog - denominatorLog - 1) * value.den
        ≤ 2 ^ (numeratorLog - denominatorLog - 1) * 2 ^ (denominatorLog + 1) := by
          gcongr
      _ = 2 ^ numeratorLog := by
          rw [← zpow_add₀ two_ne_zero]
          congr 1
          ring
      _ ≤ value.num.natAbs := numerator_ge
  · rw [value_eq, div_lt_iff₀ denominator_pos]
    calc (value.num.natAbs : ℚ) < 2 ^ (numeratorLog + 1) := numerator_lt
      _ = 2 ^ (numeratorLog - denominatorLog + 1) * 2 ^ denominatorLog := by
          rw [← zpow_add₀ two_ne_zero]
          congr 1
          ring
      _ ≤ 2 ^ (numeratorLog - denominatorLog + 1) * value.den := by
          gcongr

/-- A positive rational lies between two neighbouring powers of two. -/
theorem binaryExponent_bounds
    {value : ℚ}
    (positive : 0 < value) :
    (2 : ℚ) ^ binaryExponent value ≤ value ∧
      value < 2 ^ (binaryExponent value + 1) := by
  obtain ⟨lower, upper⟩ := estimate_bounds positive
  simp only [binaryExponent]
  split
  · next below => exact ⟨below, upper⟩
  · next above =>
      refine ⟨lower, ?_⟩
      rw [sub_add_cancel]
      exact not_le.mp above

theorem binaryExponent_le
    {value : ℚ}
    {exponent : ℤ}
    (positive : 0 < value)
    (bounded : value < 2 ^ (exponent + 1)) :
    binaryExponent value ≤ exponent := by
  have lower := (binaryExponent_bounds positive).1
  have := two_zpow_lt_iff.mp (lower.trans_lt bounded)
  omega

theorem le_binaryExponent
    {value : ℚ}
    {exponent : ℤ}
    (bounded : 2 ^ exponent ≤ value) :
    exponent ≤ binaryExponent value := by
  have positive : 0 < value := (two_zpow_pos exponent).trans_le bounded
  have upper := (binaryExponent_bounds positive).2
  have := two_zpow_lt_iff.mp (bounded.trans_lt upper)
  omega

/-- The exponent of the spacing of doubles around a positive rational. -/
def gridExponent (value : ℚ) : ℤ :=
  max (binaryExponent value - 52) (-1074)

theorem spacing_eq (value : ℚ) : spacing value = 2 ^ gridExponent value := by
  simp only [spacing, gridExponent]
  split
  · next small => rw [max_eq_right small.le]
  · next large => rw [max_eq_left (not_lt.mp large)]

theorem spacing_pos (value : ℚ) : 0 < spacing value := by
  rw [spacing_eq]
  exact two_zpow_pos _

/-! ## Nearest whole numbers -/

/-- Whole numbers are nearest to themselves. -/
@[simp] theorem nearestEven_intCast (whole : ℤ) :
    nearestEven (whole : ℚ) = whole := by
  simp [nearestEven, Rat.floor_intCast]

/-- Less than a half above a whole number is not rounded up. -/
theorem nearestEven_le
    {value : ℚ}
    {whole : ℤ}
    (bounded : value < whole + 1 / 2) :
    nearestEven value ≤ whole := by
  have floor_le : (⌊value⌋ : ℚ) ≤ value := Int.floor_le value
  have floor_lt : ⌊value⌋ < whole + 1 := by
    have : (⌊value⌋ : ℚ) < whole + 1 := by linarith
    exact_mod_cast this
  change (if value - (⌊value⌋ : ℚ) < 1 / 2 then ⌊value⌋
    else if 1 / 2 < value - (⌊value⌋ : ℚ) then ⌊value⌋ + 1
    else if ⌊value⌋ % 2 = 0 then ⌊value⌋
    else ⌊value⌋ + 1) ≤ whole
  by_cases near : value - (⌊value⌋ : ℚ) < 1 / 2
  · rw [if_pos near]
    omega
  · have below : ⌊value⌋ < whole := by
      have : (⌊value⌋ : ℚ) < whole := by linarith
      exact_mod_cast this
    rw [if_neg near]
    split_ifs <;> omega

/-- Rounding never goes below a whole number that the value is not below. -/
theorem le_nearestEven
    {value : ℚ}
    {whole : ℤ}
    (bounded : whole ≤ value) :
    whole ≤ nearestEven value := by
  have le_floor : whole ≤ ⌊value⌋ := Int.le_floor.mpr bounded
  change whole ≤ (if value - (⌊value⌋ : ℚ) < 1 / 2 then ⌊value⌋
    else if 1 / 2 < value - (⌊value⌋ : ℚ) then ⌊value⌋ + 1
    else if ⌊value⌋ % 2 = 0 then ⌊value⌋
    else ⌊value⌋ + 1)
  split_ifs <;> omega

/-! ## Values on the grid -/

/-- The rational that a nonzero rational is rounded to, however large. -/
def gridValue (value : ℚ) : ℚ :=
  nearestEven (value / spacing (magnitude value)) * spacing (magnitude value)

theorem magnitude_of_nonneg
    {value : ℚ}
    (nonneg : 0 ≤ value) :
    magnitude value = value := by
  rw [magnitude, if_neg (not_lt.mpr nonneg)]

theorem magnitude_intCast (whole : ℤ) :
    magnitude (whole : ℚ) = ((|whole| : ℤ) : ℚ) := by
  by_cases negative : whole < 0
  · simp [magnitude, negative, abs_of_neg negative]
  · simp [magnitude, negative, abs_of_nonneg (not_lt.mp negative)]

theorem gridValue_nonneg
    {value : ℚ}
    (nonneg : 0 ≤ value) :
    0 ≤ gridValue value := by
  have unit_pos := spacing_pos (magnitude value)
  have quotient_nonneg : ((0 : ℤ) : ℚ) ≤ value / spacing (magnitude value) := by
    rw [Int.cast_zero]
    exact div_nonneg nonneg unit_pos.le
  have nearest_nonneg := le_nearestEven quotient_nonneg
  exact mul_nonneg (by exact_mod_cast nearest_nonneg) unit_pos.le

/-- A positive rational rounds to its neighbour on the grid unless that is too
large for a double. -/
theorem round_of_pos
    {value : ℚ}
    (positive : 0 < value) :
    round value =
      if overflow ≤ gridValue value then infinity false
      else finite (gridValue value) := by
  have sign : decide (value < 0) = false := by simpa using positive.le
  have gridValue_magnitude := magnitude_of_nonneg (gridValue_nonneg positive.le)
  rw [gridValue] at gridValue_magnitude
  unfold round gridValue
  simp only [if_neg positive.ne', gridValue_magnitude, sign]
  split_ifs with large vanishes
  · rfl
  · rw [vanishes]
    rfl
  · rfl

/-- A power of two above the grid's spacing is a whole number of spacings. -/
theorem two_zpow_eq_mul_spacing
    {value : ℚ}
    {exponent : ℤ}
    (fine : gridExponent value ≤ exponent) :
    (2 : ℚ) ^ exponent =
      ((2 ^ (exponent - gridExponent value).toNat : ℤ) : ℚ) * spacing value := by
  have power : ((2 ^ (exponent - gridExponent value).toNat : ℤ) : ℚ) =
      2 ^ (exponent - gridExponent value) := by
    push_cast
    rw [← zpow_natCast, Int.toNat_of_nonneg (by omega)]
  rw [power, spacing_eq, ← zpow_add₀ two_ne_zero, sub_add_cancel]

/-- Rounding does not cross a power of two from below, and a power of two
absorbs what is less than half of the spacing above it. -/
theorem gridValue_le_two_zpow
    {value : ℚ}
    {exponent : ℤ}
    (positive : 0 < value)
    (normal : -1074 ≤ exponent)
    (bounded : value ≤ 2 ^ exponent + 2 ^ (exponent - 54)) :
    gridValue value ≤ 2 ^ exponent := by
  have small : (2 : ℚ) ^ (exponent - 54) < 2 ^ exponent :=
    two_zpow_lt_iff.mpr (by omega)
  have double : (2 : ℚ) ^ (exponent + 1) = 2 ^ exponent + 2 ^ exponent := by
    rw [zpow_add_one₀ two_ne_zero]
    ring
  have fine : gridExponent value ≤ exponent := by
    have := binaryExponent_le positive (show value < 2 ^ (exponent + 1) by linarith)
    unfold gridExponent
    omega
  have unit_pos := spacing_pos value
  have absorbed : value < 2 ^ exponent + spacing value / 2 := by
    by_cases above : 2 ^ exponent < value
    · have coarse : exponent - 52 ≤ gridExponent value := by
        have := le_binaryExponent above.le
        unfold gridExponent
        omega
      have half : spacing value / 2 = 2 ^ (gridExponent value - 1) := by
        rw [spacing_eq, zpow_sub_one₀ two_ne_zero, div_eq_mul_inv]
      have : (2 : ℚ) ^ (exponent - 54) < 2 ^ (gridExponent value - 1) :=
        two_zpow_lt_iff.mpr (by omega)
      linarith
    · linarith
  rw [two_zpow_eq_mul_spacing fine] at absorbed ⊢
  unfold gridValue
  rw [magnitude_of_nonneg positive.le]
  gcongr
  refine mod_cast nearestEven_le ?_
  rw [div_lt_iff₀ unit_pos]
  push_cast at absorbed ⊢
  linarith

/-! ## Whole numbers -/

@[simp] theorem gridValue_zero : gridValue 0 = 0 := by
  have nearest := nearestEven_intCast 0
  rw [Int.cast_zero] at nearest
  simp [gridValue, nearest]

/-- Whole numbers of at most 53 bits lie on the grid. -/
theorem gridValue_intCast
    {whole : ℤ}
    (small : |whole| < 2 ^ 53) :
    gridValue (whole : ℚ) = whole := by
  obtain rfl | nonzero := eq_or_ne whole 0
  · simp
  have magnitude_eq := magnitude_intCast whole
  have magnitude_pos : (0 : ℚ) < ((|whole| : ℤ) : ℚ) := by
    exact_mod_cast abs_pos.mpr nonzero
  have magnitude_lt : ((|whole| : ℤ) : ℚ) < 2 ^ ((52 : ℤ) + 1) := by
    exact_mod_cast small
  have fine : gridExponent ((|whole| : ℤ) : ℚ) ≤ 0 := by
    have := binaryExponent_le magnitude_pos magnitude_lt
    unfold gridExponent
    omega
  have unit := two_zpow_eq_mul_spacing fine
  have unit_pos := spacing_pos ((|whole| : ℤ) : ℚ)
  rw [zpow_zero] at unit
  unfold gridValue
  rw [magnitude_eq]
  generalize ((2 : ℤ) ^ (0 - gridExponent ((|whole| : ℤ) : ℚ)).toNat) =
    units at unit
  have quotient_eq : (whole : ℚ) / spacing ((|whole| : ℤ) : ℚ) =
      ((whole * units : ℤ) : ℚ) := by
    rw [div_eq_iff unit_pos.ne', Int.cast_mul, mul_assoc, ← unit, mul_one]
  rw [quotient_eq, nearestEven_intCast, Int.cast_mul, mul_assoc, ← unit,
    mul_one]

/-- A whole number rounds to a whole number. -/
theorem exists_natCast_eq_gridValue (whole : ℕ) :
    ∃ result : ℕ, gridValue (whole : ℚ) = result := by
  by_cases small : whole < 2 ^ 53
  · refine ⟨whole, ?_⟩
    have small_abs : |(whole : ℤ)| < 2 ^ 53 := by
      rw [abs_of_nonneg (Int.natCast_nonneg whole)]
      exact_mod_cast small
    exact_mod_cast gridValue_intCast small_abs
  · have large : (2 : ℚ) ^ (53 : ℤ) ≤ (whole : ℚ) := by
      exact_mod_cast not_lt.mp small
    have coarse : 0 ≤ gridExponent (whole : ℚ) := by
      have := le_binaryExponent large
      unfold gridExponent
      omega
    have nonneg : (0 : ℚ) ≤ (whole : ℚ) := Nat.cast_nonneg whole
    have nearest_nonneg : 0 ≤ nearestEven ((whole : ℚ) / spacing (whole : ℚ)) := by
      apply le_nearestEven
      rw [Int.cast_zero]
      exact div_nonneg nonneg (spacing_pos _).le
    obtain ⟨units, units_eq⟩ := Int.eq_ofNat_of_zero_le nearest_nonneg
    obtain ⟨power, power_eq⟩ := Int.eq_ofNat_of_zero_le coarse
    refine ⟨units * 2 ^ power, ?_⟩
    unfold gridValue
    rw [magnitude_of_nonneg nonneg, units_eq, spacing_eq, power_eq]
    push_cast
    rw [zpow_natCast]

/-! ## Rounded results -/

theorem overflow_eq : overflow = 2 ^ (1024 : ℤ) := rfl

/-- A nonnegative rational rounds to a nonnegative double. -/
theorem round_of_nonneg
    {value : ℚ}
    (nonneg : 0 ≤ value) :
    round value = infinity false ∨ round value = finite (gridValue value) := by
  obtain rfl | positive := nonneg.eq_or_lt
  · right
    simp
  · rw [round_of_pos positive]
    split_ifs
    · exact .inl rfl
    · exact .inr rfl

/-- Below the largest power of two nothing becomes infinite. -/
theorem round_eq_gridValue
    {value : ℚ}
    {exponent : ℤ}
    (nonneg : 0 ≤ value)
    (normal : -1074 ≤ exponent)
    (representable : exponent ≤ 1023)
    (bounded : value ≤ 2 ^ exponent + 2 ^ (exponent - 54)) :
    round value = finite (gridValue value) ∧ gridValue value ≤ 2 ^ exponent := by
  obtain rfl | positive := nonneg.eq_or_lt
  · simp [(two_zpow_pos exponent).le]
  have gridValue_le := gridValue_le_two_zpow positive normal bounded
  have not_large : ¬overflow ≤ gridValue value := by
    have := two_zpow_lt_iff.mpr (show exponent < 1024 by omega)
    rw [overflow_eq, not_le]
    exact gridValue_le.trans_lt this
  rw [round_of_pos positive, if_neg not_large]
  exact ⟨rfl, gridValue_le⟩

/-- Whole numbers of at most 53 bits are doubles. -/
theorem round_intCast
    {whole : ℤ}
    (small : |whole| < 2 ^ 53) :
    round (whole : ℚ) = finite whole := by
  obtain rfl | nonzero := eq_or_ne whole 0
  · simp
  have gridValue_eq := gridValue_intCast small
  have value_ne : (whole : ℚ) ≠ 0 := by exact_mod_cast nonzero
  have not_large : ¬overflow ≤ magnitude (whole : ℚ) := by
    have size : (2 : ℚ) ^ (53 : ℤ) < 2 ^ (1024 : ℤ) :=
      two_zpow_lt_iff.mpr (by norm_num)
    have whole_lt : ((|whole| : ℤ) : ℚ) < 2 ^ (53 : ℤ) := by
      exact_mod_cast small
    rw [magnitude_intCast, overflow_eq, not_le]
    exact whole_lt.trans size
  unfold gridValue at gridValue_eq
  unfold round
  simp only [if_neg value_ne, gridValue_eq, if_neg not_large]

theorem round_natCast
    {whole : ℕ}
    (small : whole < 2 ^ 53) :
    round (whole : ℚ) = finite whole := by
  have small_abs : |(whole : ℤ)| < 2 ^ 53 := by
    rw [abs_of_nonneg (Int.natCast_nonneg whole)]
    exact_mod_cast small
  exact_mod_cast round_intCast small_abs

/-! ## The largest double -/

/-- The largest finite double. -/
def largest : ℚ :=
  overflow - 2 ^ (971 : ℤ)

theorem overflow_eq_mul :
    overflow = ((2 ^ 53 : ℤ) : ℚ) * 2 ^ (971 : ℤ) := by
  have power : overflow = 2 ^ (53 : ℤ) * 2 ^ (971 : ℤ) := by
    rw [overflow_eq, ← zpow_add₀ two_ne_zero]
    rfl
  rw [power]
  rfl

/-- The largest double is the last one on the grid below the overflow. -/
theorem largest_eq_mul :
    largest = ((2 ^ 53 - 1 : ℤ) : ℚ) * 2 ^ (971 : ℤ) := by
  rw [largest, overflow_eq_mul, Int.cast_sub, sub_mul, Int.cast_one, one_mul]

theorem largest_lt_overflow : largest < overflow :=
  sub_lt_self _ (two_zpow_pos _)

/-- More than half of the way to the overflow is not above the largest double. -/
theorem two_zpow_le_largest : (2 : ℚ) ^ (1023 : ℤ) ≤ largest := by
  have double : overflow = 2 ^ (1023 : ℤ) + 2 ^ (1023 : ℤ) := by
    rw [overflow_eq, ← mul_two]
    exact zpow_add_one₀ two_ne_zero 1023
  rw [largest, double]
  apply le_sub_iff_add_le.mpr
  gcongr
  all_goals norm_num

theorem largest_nonneg : 0 ≤ largest :=
  (two_zpow_pos 1023).le.trans two_zpow_le_largest

/-- In the last octave below the overflow the spacing does not change. -/
theorem spacing_of_last
    {value : ℚ}
    (lower : 2 ^ (1023 : ℤ) ≤ value)
    (upper : value < overflow) :
    spacing value = 2 ^ (971 : ℤ) := by
  have positive : 0 < value := (two_zpow_pos 1023).trans_le lower
  have above := le_binaryExponent lower
  have below : binaryExponent value ≤ 1023 := binaryExponent_le positive upper
  rw [spacing_eq, gridExponent, max_eq_left (by omega)]
  congr 1
  omega

/-- Rounding does not leave the range of the finite doubles. -/
theorem gridValue_le_largest
    {value : ℚ}
    (positive : 0 < value)
    (bounded : value ≤ largest) :
    gridValue value ≤ largest := by
  obtain small | large := le_or_gt value (2 ^ (1023 : ℤ))
  · have absorbed : value ≤ 2 ^ (1023 : ℤ) + 2 ^ ((1023 : ℤ) - 54) :=
      small.trans (le_add_of_nonneg_right (two_zpow_pos _).le)
    exact (gridValue_le_two_zpow positive (by norm_num) absorbed).trans
      two_zpow_le_largest
  · have unit_pos := two_zpow_pos 971
    have quotient_le : value / 2 ^ (971 : ℤ) ≤ ((2 ^ 53 - 1 : ℤ) : ℚ) := by
      rw [div_le_iff₀ unit_pos, ← largest_eq_mul]
      exact bounded
    rw [gridValue, magnitude_of_nonneg positive.le,
      spacing_of_last large.le (bounded.trans_lt largest_lt_overflow),
      largest_eq_mul]
    gcongr
    apply nearestEven_le
    exact quotient_le.trans_lt (lt_add_of_pos_right _ (by norm_num))

/-- Rounding does not cross the power of two below a value. -/
theorem two_zpow_binaryExponent_le_gridValue
    {value : ℚ}
    (positive : 0 < value)
    (normal : -1074 ≤ binaryExponent value) :
    2 ^ binaryExponent value ≤ gridValue value := by
  have fine : gridExponent value ≤ binaryExponent value := by
    unfold gridExponent
    omega
  have below := (binaryExponent_bounds positive).1
  have unit_pos := spacing_pos value
  rw [two_zpow_eq_mul_spacing fine] at below ⊢
  rw [← le_div_iff₀ unit_pos] at below
  rw [gridValue, magnitude_of_nonneg positive.le]
  gcongr
  exact mod_cast le_nearestEven below

/-- What does not round to an infinity does not round to more than the largest
double. -/
theorem gridValue_le_largest_of_lt
    {value : ℚ}
    (positive : 0 < value)
    (small : gridValue value < overflow) :
    gridValue value ≤ largest := by
  obtain inside | outside := le_or_gt value largest
  · exact gridValue_le_largest positive inside
  have lower : 2 ^ (1023 : ℤ) ≤ value :=
    two_zpow_le_largest.trans outside.le
  have exponent_ge := le_binaryExponent lower
  have power_le :=
    two_zpow_binaryExponent_le_gridValue positive (by omega)
  have upper : value < overflow := by
    apply lt_of_not_ge
    intro large
    have := two_zpow_le_iff.mpr (le_binaryExponent large)
    exact small.not_ge (this.trans power_le)
  have unit_pos := two_zpow_pos 971
  rw [gridValue, magnitude_of_nonneg positive.le, spacing_of_last lower upper]
    at small ⊢
  rw [largest_eq_mul]
  rw [overflow_eq_mul] at small
  have units_lt := lt_of_mul_lt_mul_right small unit_pos.le
  have units_le := Int.le_sub_one_of_lt (Int.cast_lt.mp units_lt)
  exact mul_le_mul_of_nonneg_right (Int.cast_le.mpr units_le) unit_pos.le

/-- Up to the largest double nothing becomes infinite. -/
theorem round_eq_gridValue_of_le_largest
    {value : ℚ}
    (nonneg : 0 ≤ value)
    (bounded : value ≤ largest) :
    round value = finite (gridValue value) ∧ gridValue value ≤ largest := by
  obtain rfl | positive := nonneg.eq_or_lt
  · simp [largest_nonneg]
  have gridValue_le := gridValue_le_largest positive bounded
  have not_large : ¬overflow ≤ gridValue value :=
    (gridValue_le.trans_lt largest_lt_overflow).not_ge
  rw [round_of_pos positive, if_neg not_large]
  exact ⟨rfl, gridValue_le⟩

end Binary64
end Backpressure
