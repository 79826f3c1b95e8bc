import Backpressure.Time
import Backpressure.Proofs.Binary64.Rank
import Backpressure.Proofs.Binary64.Whole

/-!
# Rounding in order

Rounding keeps the order, so the double nearest to a smaller rational is not the
larger one.  What is on the grid of doubles stays there when it is rounded once
more, even after its fraction is cut off.  It follows that the span to a clock
reading is no longer from a later reading than from an earlier one, and the span from
a reading is no shorter to a later one.
-/

namespace Backpressure
namespace Binary64

/-! ## Order -/

section Order

variable {first second third : Binary64}

/-- Strict order and weak order combine. -/
protected theorem lt_of_lt_of_le
    (lower : first < second)
    (upper : second ≤ third) :
    first < third := by
  obtain ⟨firstNumber, secondNumber⟩ := ne_nan_of_le (le_of_below lower)
  obtain ⟨-, thirdNumber⟩ := ne_nan_of_le upper
  rw [le_iff_rank secondNumber thirdNumber] at upper
  exact (less_iff_rank firstNumber thirdNumber).mpr
    (((less_iff_rank firstNumber secondNumber).mp lower).trans_le upper)

protected theorem lt_of_le_of_lt
    (lower : first ≤ second)
    (upper : second < third) :
    first < third := by
  obtain ⟨firstNumber, secondNumber⟩ := ne_nan_of_le lower
  obtain ⟨-, thirdNumber⟩ := ne_nan_of_le (le_of_below upper)
  rw [le_iff_rank firstNumber secondNumber] at lower
  exact (less_iff_rank firstNumber thirdNumber).mpr
    (lower.trans_lt ((less_iff_rank secondNumber thirdNumber).mp upper))

/-- Among finite numbers the order is that of their values. -/
theorem le_iff_toRat
    (firstFinite : first.IsFinite)
    (secondFinite : second.IsFinite) :
    first ≤ second ↔ first.toRat ≤ second.toRat := by
  have number : ∀ {value : Binary64}, value.IsFinite → value ≠ nan := by
    rintro value finite rfl
    exact finite
  have rank_eq : ∀ {value : Binary64}, value.IsFinite →
      value.rank = ((value.toRat : ℝ) : EReal) := by
    intro value finite
    cases value with
    | nan => contradiction
    | infinity negative => contradiction
    | finite value => rfl
    | negativeZero => simp [rank]
  rw [le_iff_rank (number firstFinite) (number secondFinite),
    rank_eq firstFinite, rank_eq secondFinite, EReal.coe_le_coe_iff,
    Rat.cast_le]

end Order

/-! ## Nearest values -/

/-- A larger value has no smaller nearest whole number. -/
theorem nearestEven_mono
    {first second : ℚ}
    (ordered : first ≤ second) :
    nearestEven first ≤ nearestEven second := by
  obtain same | below := (Int.floor_mono ordered).eq_or_lt
  · -- between two whole numbers the rest decides
    have rest_le : first - (⌊second⌋ : ℚ) ≤ second - (⌊second⌋ : ℚ) :=
      sub_le_sub_right ordered _
    change (if first - (⌊first⌋ : ℚ) < 1 / 2 then ⌊first⌋
        else if 1 / 2 < first - (⌊first⌋ : ℚ) then ⌊first⌋ + 1
        else if ⌊first⌋ % 2 = 0 then ⌊first⌋
        else ⌊first⌋ + 1) ≤
      if second - (⌊second⌋ : ℚ) < 1 / 2 then ⌊second⌋
        else if 1 / 2 < second - (⌊second⌋ : ℚ) then ⌊second⌋ + 1
        else if ⌊second⌋ % 2 = 0 then ⌊second⌋
        else ⌊second⌋ + 1
    rw [same]
    split_ifs
    all_goals first
      | omega
      | (exfalso; linarith)
  · have first_le : nearestEven first ≤ ⌊first⌋ + 1 := by
      apply nearestEven_le
      push_cast
      linarith [Int.lt_floor_add_one first]
    have le_second : ⌊second⌋ ≤ nearestEven second :=
      le_nearestEven (Int.floor_le second)
    omega

/-- A larger value has no smaller neighbour on the grid. -/
theorem gridValue_mono
    {first second : ℚ}
    (positive : 0 < first)
    (ordered : first ≤ second) :
    gridValue first ≤ gridValue second := by
  have laterPositive := positive.trans_le ordered
  have exponent_le : binaryExponent first ≤ binaryExponent second :=
    le_binaryExponent ((binaryExponent_bounds positive).1.trans ordered)
  obtain same | finer := (show gridExponent first ≤ gridExponent second by
    unfold gridExponent
    omega).eq_or_lt
  · have unit_pos := spacing_pos second
    have unit_eq : spacing first = spacing second := by
      rw [spacing_eq, spacing_eq, same]
    rw [gridValue, gridValue, magnitude_of_nonneg positive.le,
      magnitude_of_nonneg laterPositive.le, unit_eq]
    have quotient_le := div_le_div_of_nonneg_right ordered unit_pos.le
    gcongr
    exact nearestEven_mono quotient_le
  · -- where the spacing changes, there is a power of two between the values
    have below : binaryExponent first + 1 ≤ binaryExponent second ∧
        -1074 ≤ binaryExponent second := by
      unfold gridExponent at finer
      omega
    have first_le : first ≤ 2 ^ binaryExponent second :=
      (binaryExponent_bounds positive).2.le.trans (two_zpow_le_iff.mpr below.1)
    calc gridValue first
        ≤ 2 ^ binaryExponent second :=
          gridValue_le_two_zpow positive below.2
            (first_le.trans (le_add_of_nonneg_right (two_zpow_pos _).le))
      _ ≤ gridValue second :=
          two_zpow_binaryExponent_le_gridValue laterPositive below.2

theorem round_mono
    {first second : ℚ}
    (nonneg : 0 ≤ first)
    (ordered : first ≤ second) :
    round first ≤ round second := by
  obtain rfl | positive := nonneg.eq_or_lt
  · rw [round_zero]
    obtain endless | round_eq := round_of_nonneg ordered
    · rw [endless]
      rfl
    · rw [round_eq, finite_le_finite]
      exact gridValue_nonneg ordered
  · have gridValue_le := gridValue_mono positive ordered
    rw [round_of_pos positive, round_of_pos (positive.trans_le ordered)]
    split_ifs with firstLarge secondLarge
    · rfl
    · exact absurd (firstLarge.trans gridValue_le) secondLarge
    · rfl
    · rwa [finite_le_finite]

theorem floor_round_mono
    {first second : ℚ}
    (nonneg : 0 ≤ first)
    (ordered : first ≤ second) :
    Arithmetic.floor (round first) ≤ Arithmetic.floor (round second) := by
  have rounded := round_mono nonneg ordered
  obtain endless | first_eq := round_of_nonneg nonneg
  · obtain secondEndless | second_eq := round_of_nonneg (nonneg.trans ordered)
    · rw [endless, secondEndless]
      rfl
    · rw [endless, second_eq] at rounded
      contradiction
  · obtain endless | second_eq := round_of_nonneg (nonneg.trans ordered)
    · rw [first_eq, endless]
      rfl
    · rw [first_eq, second_eq, finite_le_finite] at rounded
      rw [first_eq, second_eq, floor_finite, floor_finite, finite_le_finite]
      exact_mod_cast Int.floor_mono rounded

/-- A difference of whole numbers that is rounded to a small one is exact. -/
theorem subtract_eq_of_small
    {whole less difference : ℕ}
    (less_le : less ≤ whole)
    (subtract_eq : finite whole - finite less = finite difference)
    (small : difference ≤ 2 ^ 52) :
    difference = whole - less := by
  rw [subtract_finite, ← Nat.cast_sub less_le] at subtract_eq
  obtain exact_lt | large := lt_or_ge (whole - less) (2 ^ 53)
  · rw [round_natCast exact_lt, finite.injEq, Nat.cast_inj] at subtract_eq
    exact subtract_eq.symm
  · have bound_le : ((2 ^ 53 - 1 : ℕ) : ℚ) ≤ (whole - less : ℕ) :=
      Nat.cast_le.mpr (Nat.sub_le_of_le_add (large.trans (Nat.le_add_right _ _)))
    have rounded := round_mono (Nat.cast_nonneg _) bound_le
    rw [subtract_eq, round_natCast (by norm_num), finite_le_finite, Nat.cast_le]
      at rounded
    omega

/-! ## Values on the grid -/

/-- What takes 53 bits is on the grid. -/
theorem gridValue_mul_two_zpow
    {units exponent : ℤ}
    (nonneg : 0 ≤ units)
    (units_lt : units < 2 ^ 53)
    (normal : -1074 ≤ exponent) :
    gridValue (units * 2 ^ exponent) = units * 2 ^ exponent := by
  obtain rfl | units_pos := nonneg.eq_or_lt
  · simp
  have positive : (0 : ℚ) < units * 2 ^ exponent :=
    mul_pos (by exact_mod_cast units_pos) (two_zpow_pos exponent)
  have fine : gridExponent (units * 2 ^ exponent) ≤ exponent := by
    have bounded : (units : ℚ) * 2 ^ exponent < 2 ^ (52 + exponent + 1) := by
      rw [show 52 + exponent + 1 = 53 + exponent by ring,
        zpow_add₀ two_ne_zero]
      gcongr
      exact_mod_cast units_lt
    have := binaryExponent_le positive bounded
    unfold gridExponent
    omega
  have unit_eq := two_zpow_eq_mul_spacing fine
  have unit_pos := spacing_pos (units * 2 ^ exponent)
  rw [gridValue, magnitude_of_nonneg positive.le]
  generalize spacing (units * 2 ^ exponent) = unit at unit_eq unit_pos
  have quotient_eq : (units : ℚ) * 2 ^ exponent / unit =
      ((units * 2 ^ (exponent - gridExponent (units * 2 ^ exponent)).toNat :
        ℤ) : ℚ) := by
    rw [div_eq_iff unit_pos.ne']
    nth_rewrite 1 [unit_eq]
    push_cast
    ring
  rw [quotient_eq, nearestEven_intCast, ← quotient_eq,
    div_mul_cancel₀ _ unit_pos.ne']

/-- The spacing around a value is so fine that 53 bits suffice for its
neighbour. -/
theorem exists_gridValue_eq
    {value : ℚ}
    (positive : 0 < value) :
    ∃ units : ℤ, 0 ≤ units ∧ units ≤ 2 ^ 53 ∧
      gridValue value = units * 2 ^ gridExponent value := by
  have unit_pos := spacing_pos value
  have quotient_nonneg : ((0 : ℤ) : ℚ) ≤ value / spacing value := by
    rw [Int.cast_zero]
    exact div_nonneg positive.le unit_pos.le
  have quotient_lt : value / spacing value < ((2 ^ 53 : ℤ) : ℚ) := by
    rw [div_lt_iff₀ unit_pos, spacing_eq]
    calc value < 2 ^ (binaryExponent value + 1) :=
          (binaryExponent_bounds positive).2
      _ ≤ 2 ^ (53 + gridExponent value) := by
          apply two_zpow_le_iff.mpr
          unfold gridExponent
          omega
      _ = ((2 ^ 53 : ℤ) : ℚ) * 2 ^ gridExponent value := by
          rw [zpow_add₀ two_ne_zero]
          norm_num
  refine ⟨nearestEven (value / spacing value), le_nearestEven quotient_nonneg,
    nearestEven_le (by linarith), ?_⟩
  rw [gridValue, magnitude_of_nonneg positive.le, ← spacing_eq]

section Fractions

variable {units exponent : ℤ}

/-- A value with a fraction takes less than 53 bits without it. -/
theorem gridValue_floor_of_fractional
    (nonneg : 0 ≤ units)
    (units_le : units ≤ 2 ^ 53)
    (fractional : exponent < 0) :
    gridValue (⌊(units : ℚ) * 2 ^ exponent⌋ : ℚ) =
      ⌊(units : ℚ) * 2 ^ exponent⌋ := by
  have power_le : (2 : ℚ) ^ exponent ≤ 2 ^ (-1 : ℤ) :=
    two_zpow_le_iff.mpr (by omega)
  have units_le' : (units : ℚ) ≤ 2 ^ 53 := by exact_mod_cast units_le
  have product_lt : (units : ℚ) * 2 ^ exponent < 2 ^ 53 :=
    calc (units : ℚ) * 2 ^ exponent ≤ 2 ^ 53 * 2 ^ (-1 : ℤ) := by
          gcongr
      _ < 2 ^ 53 := by norm_num
  have product_nonneg : (0 : ℚ) ≤ units * 2 ^ exponent :=
    mul_nonneg (by exact_mod_cast nonneg) (two_zpow_pos _).le
  apply gridValue_intCast
  rw [abs_of_nonneg (Int.floor_nonneg.mpr product_nonneg), Int.floor_lt]
  exact_mod_cast product_lt

/-- A value without one stays as it is. -/
theorem gridValue_floor_of_whole
    (nonneg : 0 ≤ units)
    (units_le : units ≤ 2 ^ 53)
    (whole : 0 ≤ exponent) :
    gridValue (⌊(units : ℚ) * 2 ^ exponent⌋ : ℚ) =
      ⌊(units : ℚ) * 2 ^ exponent⌋ := by
  obtain ⟨power, rfl⟩ := Int.eq_ofNat_of_zero_le whole
  have floor_eq : ⌊(units : ℚ) * 2 ^ (power : ℤ)⌋ = units * 2 ^ power := by
    rw [zpow_natCast]
    exact_mod_cast Int.floor_intCast (R := ℚ) (units * 2 ^ power)
  have cast_eq : ((units * 2 ^ power : ℤ) : ℚ) = units * 2 ^ (power : ℤ) := by
    push_cast
    rw [zpow_natCast]
  rw [floor_eq, cast_eq]
  obtain units_lt | rfl := units_le.lt_or_eq
  · exact gridValue_mul_two_zpow nonneg units_lt (by omega)
  · -- the next power of two takes a single bit
    have single : gridValue ((1 : ℤ) * 2 ^ (53 + power : ℤ)) =
        (1 : ℤ) * 2 ^ (53 + power : ℤ) :=
      gridValue_mul_two_zpow (by norm_num) (by norm_num) (by omega)
    rw [zpow_add₀ two_ne_zero, Int.cast_one, one_mul] at single
    exact_mod_cast single

end Fractions

/-- A value on the grid stays on it without its fraction. -/
theorem gridValue_floor_gridValue
    {value : ℚ}
    (nonneg : 0 ≤ value) :
    gridValue (⌊gridValue value⌋ : ℚ) = ⌊gridValue value⌋ := by
  obtain rfl | positive := nonneg.eq_or_lt
  · simp
  obtain ⟨units, units_nonneg, units_le, grid_eq⟩ :=
    exists_gridValue_eq positive
  rw [grid_eq]
  obtain fractional | whole := lt_or_ge (gridExponent value) 0
  · exact gridValue_floor_of_fractional units_nonneg units_le fractional
  · exact gridValue_floor_of_whole units_nonneg units_le whole

/-- So a rounded value can lose its fraction without another rounding. -/
theorem round_floor
    {value result : ℚ}
    (nonneg : 0 ≤ value)
    (round_eq : round value = finite result) :
    round (⌊result⌋ : ℚ) = finite ⌊result⌋ := by
  obtain rfl | positive := nonneg.eq_or_lt
  · rw [round_zero, finite.injEq] at round_eq
    simp [← round_eq]
  rw [round_of_pos positive] at round_eq
  split_ifs at round_eq with large
  rw [finite.injEq] at round_eq
  have floor_grid := gridValue_floor_gridValue positive.le
  have floor_le : (⌊gridValue value⌋ : ℚ) ≤ gridValue value := Int.floor_le _
  have floor_nonneg : (0 : ℚ) ≤ ⌊gridValue value⌋ := by
    exact_mod_cast Int.floor_nonneg.mpr (gridValue_nonneg positive.le)
  rw [← round_eq]
  obtain vanishes | floor_pos := floor_nonneg.eq_or_lt
  · rw [← vanishes, round_zero]
  · have small : ¬overflow ≤ (⌊gridValue value⌋ : ℚ) :=
      not_le.mpr (floor_le.trans_lt (not_le.mp large))
    rw [round_of_pos floor_pos, floor_grid, if_neg small]

/-- What is left of a double after a part is taken away is not above it. -/
theorem round_subtract_le
    {whole : ℕ}
    {part : ℚ}
    (kept : round whole = finite whole)
    (part_nonneg : 0 ≤ part)
    (part_le : part ≤ whole) :
    ∃ rest : ℚ, round (whole - part) = finite rest ∧ rest ≤ whole := by
  have nonneg := sub_nonneg.mpr part_le
  have ordered : round (whole - part) ≤ finite whole := by
    rw [← kept]
    exact round_mono nonneg (sub_le_self _ part_nonneg)
  obtain endless | round_eq := round_of_nonneg nonneg
  · rw [endless] at ordered
    contradiction
  · rw [round_eq, finite_le_finite] at ordered
    exact ⟨_, round_eq, ordered⟩

/-- A natural number that is a double: it takes no rounding. -/
def WholeDouble (value : Binary64) : Prop :=
  ∃ number : ℕ, value = finite number ∧ round number = finite number

theorem WholeDouble.zero : WholeDouble 0 :=
  ⟨0, by simp, by simp⟩

/-- What is rounded to a finite number is a double. -/
theorem wholeDouble_of_round
    {number result : ℕ}
    (round_eq : round number = finite result) :
    WholeDouble (finite result) := by
  have kept := round_floor (Nat.cast_nonneg number) round_eq
  rw [Int.floor_natCast] at kept
  exact ⟨result, rfl, kept⟩

/-- So is what is left after something is taken away. -/
theorem WholeUpTo.wholeDouble_larger_zero_subtract
    {exponent : ℤ}
    {first second : Binary64}
    (nonneg : 0 ≤ exponent)
    (representable : exponent ≤ 1023)
    (whole : WholeUpTo exponent first)
    (secondCount : Count second) :
    WholeDouble (Arithmetic.larger 0 (first - second)) := by
  by_cases ordered : second ≤ first
  · obtain ⟨rest, rest_eq, _⟩ :=
      whole.subtract nonneg representable secondCount ordered
    have larger_eq : Arithmetic.larger 0 (finite rest) = finite rest := by
      rw [literal_zero, larger_finite, max_eq_right (Nat.cast_nonneg rest)]
    rw [rest_eq, larger_eq]
    obtain ⟨one, rfl, _⟩ := whole
    obtain rfl | ⟨two, rfl⟩ := secondCount
    · contradiction
    rw [finite_le_finite, Nat.cast_le] at ordered
    rw [subtract_finite, ← Nat.cast_sub ordered] at rest_eq
    exact wholeDouble_of_round rest_eq
  · rw [whole.larger_zero_subtract_of_not_le secondCount ordered]
    exact .zero

/-! ## Spans of time -/

section Spans

variable {earlier middle later : Binary64}

/-- The difference of finite readings is their exact difference, rounded.  Only a
zero may have the other sign. -/
theorem subtract_of_isFinite
    (laterFinite : later.IsFinite)
    (earlierFinite : earlier.IsFinite) :
    later - earlier = round (later.toRat - earlier.toRat) ∨
      later - earlier = negativeZero ∧ later.toRat - earlier.toRat = 0 := by
  cases later with
  | nan => contradiction
  | infinity negative => contradiction
  | finite second =>
      cases earlier with
      | nan => contradiction
      | infinity negative => contradiction
      | finite first => exact .inl (subtract_finite second first)
      | negativeZero => exact .inl (subtract_finite second 0)
  | negativeZero =>
      cases earlier with
      | nan => contradiction
      | infinity negative => contradiction
      | negativeZero =>
          left
          change round (0 + 0) = round (0 - 0)
          rw [add_zero, sub_zero]
      | finite first =>
          obtain rfl | nonzero := eq_or_ne first 0
          · exact .inr ⟨rfl, by simp⟩
          · left
            change add negativeZero
              (if first = 0 then negativeZero else finite (-first)) = _
            rw [if_neg nonzero, toRat_finite, toRat_negativeZero, zero_sub]
            change round (0 + -first) = _
            rw [zero_add]

/-- What is not above zero is not above it without its fraction, either. -/
theorem larger_zero_floor
    {value : Binary64}
    (clipped : Arithmetic.larger 0 value = 0) :
    Arithmetic.larger 0 (Arithmetic.floor value) = finite 0 := by
  rw [literal_zero] at clipped ⊢
  cases value with
  | nan => contradiction
  | infinity negative =>
      cases negative with
      | true => rfl
      | false => contradiction
  | negativeZero => rfl
  | finite value =>
      rw [larger_finite, finite.injEq, max_eq_left_iff] at clipped
      rw [floor_finite, larger_finite, max_eq_left]
      exact_mod_cast Int.floor_nonpos clipped

/-- The span between finite readings is their difference, rounded and without
its fraction, and none if the clock ran backwards. -/
theorem elapsed_of_isFinite
    (earlierFinite : earlier.IsFinite)
    (laterFinite : later.IsFinite) :
    Time.elapsed earlier later =
      if earlier.toRat ≤ later.toRat
      then Arithmetic.floor (round (later.toRat - earlier.toRat))
      else finite 0 := by
  unfold Time.elapsed
  split_ifs with forward
  · have nonneg := sub_nonneg.mpr forward
    obtain difference_eq | ⟨difference_eq, zero_eq⟩ :=
      subtract_of_isFinite laterFinite earlierFinite
    · rw [difference_eq, literal_zero]
      obtain endless | round_eq := round_of_nonneg nonneg
      · rw [endless]
        rfl
      · have floor_nonneg : (0 : ℚ) ≤
            ⌊gridValue (later.toRat - earlier.toRat)⌋ := by
          exact_mod_cast Int.floor_nonneg.mpr (gridValue_nonneg nonneg)
        rw [round_eq, floor_finite, larger_finite, max_eq_right floor_nonneg]
    · rw [difference_eq, zero_eq, round_zero, floor_finite, Int.floor_zero,
        literal_zero]
      rfl
  · have negative := sub_neg.mpr (not_le.mp forward)
    obtain difference_eq | ⟨-, zero_eq⟩ :=
      subtract_of_isFinite laterFinite earlierFinite
    · rw [difference_eq]
      exact larger_zero_floor (larger_zero_round_of_neg negative)
    · exact absurd zero_eq negative.ne

/-- A span between finite readings is infinite, or a whole number that is a
double. -/
theorem elapsed_cases
    (earlierFinite : earlier.IsFinite)
    (laterFinite : later.IsFinite) :
    Time.elapsed earlier later = infinity false ∨
      ∃ number : ℕ, Time.elapsed earlier later = finite number ∧
        round number = finite number := by
  rw [elapsed_of_isFinite earlierFinite laterFinite]
  split_ifs with forward
  · have nonneg := sub_nonneg.mpr forward
    obtain endless | round_eq := round_of_nonneg nonneg
    · left
      rw [endless]
      rfl
    · right
      have kept := round_floor nonneg round_eq
      have floor_nonneg := Int.floor_nonneg.mpr (gridValue_nonneg nonneg)
      rw [round_eq, floor_finite]
      generalize ⌊gridValue (later.toRat - earlier.toRat)⌋ = floor
        at kept floor_nonneg
      obtain ⟨number, rfl⟩ := Int.eq_ofNat_of_zero_le floor_nonneg
      exact ⟨number, by simp, by simpa using kept⟩
  · exact .inr ⟨0, by simp, by simp⟩

/-- The span to a reading is no longer from a later reading than from an earlier
one. -/
theorem elapsed_anti
    (earlierFinite : earlier.IsFinite)
    (middleFinite : middle.IsFinite)
    (laterFinite : later.IsFinite)
    (earlier_le : earlier ≤ middle)
    (middle_le : middle ≤ later) :
    Time.elapsed middle later ≤ Time.elapsed earlier later := by
  rw [le_iff_toRat earlierFinite middleFinite] at earlier_le
  rw [le_iff_toRat middleFinite laterFinite] at middle_le
  rw [elapsed_of_isFinite earlierFinite laterFinite,
    elapsed_of_isFinite middleFinite laterFinite, if_pos middle_le,
    if_pos (earlier_le.trans middle_le)]
  exact floor_round_mono (sub_nonneg.mpr middle_le)
    (sub_le_sub_left earlier_le _)

/-- And it is no shorter to a later reading than to an earlier one. -/
theorem elapsed_mono
    (earlierFinite : earlier.IsFinite)
    (middleFinite : middle.IsFinite)
    (laterFinite : later.IsFinite)
    (earlier_le : earlier ≤ middle)
    (middle_le : middle ≤ later) :
    Time.elapsed earlier middle ≤ Time.elapsed earlier later := by
  rw [le_iff_toRat earlierFinite middleFinite] at earlier_le
  rw [le_iff_toRat middleFinite laterFinite] at middle_le
  rw [elapsed_of_isFinite earlierFinite laterFinite,
    elapsed_of_isFinite earlierFinite middleFinite, if_pos earlier_le,
    if_pos (earlier_le.trans middle_le)]
  exact floor_round_mono (sub_nonneg.mpr earlier_le)
    (sub_le_sub_right middle_le _)

/-- The span between two readings of whole milliseconds. -/
theorem elapsed_natCast
    {earlier later : ℕ}
    (earlier_lt : earlier < 2 ^ 53)
    (later_lt : later < 2 ^ 53) :
    Time.elapsed (finite earlier) (finite later) = finite (later - earlier : ℕ) := by
  have floor_eq : ⌊(later - earlier : ℚ)⌋ = (later - earlier : ℤ) := by
    exact_mod_cast Int.floor_intCast (later - earlier : ℤ)
  have larger_eq : max 0 (later - earlier : ℤ) = (later - earlier : ℕ) := by omega
  unfold Time.elapsed
  rw [subtract_natCast later_lt earlier_lt, floor_finite, literal_zero, larger_finite,
    floor_eq]
  exact_mod_cast congrArg (fun whole : ℤ => finite whole) larger_eq

end Spans

end Binary64
end Backpressure
