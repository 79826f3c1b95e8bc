import Backpressure.Proofs.Binary64.Monotone

/-!
# Whole parts of quotients

A quotient of whole numbers is rounded before its fraction is cut off.  If the numerator
has at most 53 bits, this does not change the whole part: the next whole number lies on
the grid, and it is more than half of the spacing away.
-/

namespace Backpressure
namespace Binary64

/-- A whole number on the grid that is more than half of the spacing away is not
reached. -/
theorem gridValue_lt
    {value : ℚ}
    {whole : ℕ}
    (positive : 0 < value)
    (fine : gridExponent value ≤ 0)
    (far : value + spacing value / 2 < whole) :
    gridValue value < whole := by
  have unit_pos := spacing_pos value
  have unit := two_zpow_eq_mul_spacing fine
  rw [zpow_zero] at unit
  generalize (2 ^ (0 - gridExponent value).toNat : ℤ) = units at unit
  have whole_eq : (whole : ℚ) = ((whole * units : ℤ) : ℚ) * spacing value := by
    push_cast
    rw [mul_assoc, ← unit, mul_one]
  have nearest_lt : nearestEven (value / spacing value) < whole * units := by
    apply Int.lt_of_le_sub_one
    apply nearestEven_le
    rw [div_lt_iff₀ unit_pos]
    push_cast at whole_eq ⊢
    linarith
  have nearest_lt' : (nearestEven (value / spacing value) : ℚ) <
      ((whole * units : ℤ) : ℚ) := by exact_mod_cast nearest_lt
  rw [whole_eq, gridValue, magnitude_of_nonneg positive.le]
  gcongr

section Quotients

variable {numerator denominator : ℕ}

/-- The next whole number above a quotient is at least one part away. -/
theorem div_add_part_le
    (numerator : ℕ)
    (positive : 1 ≤ denominator) :
    (numerator / denominator : ℚ) + 1 / denominator ≤
      (numerator / denominator + 1 : ℕ) := by
  have denominator_pos : (0 : ℚ) < denominator := by exact_mod_cast positive
  have division := Nat.div_add_mod numerator denominator
  have remainder_lt := Nat.mod_lt numerator positive
  have below : numerator + 1 ≤ (numerator / denominator + 1) * denominator := by
    rw [Nat.add_mul, Nat.one_mul, Nat.mul_comm]
    omega
  rw [← add_div, div_le_iff₀ denominator_pos]
  exact_mod_cast below

/-- From one half on, half of the spacing around a quotient is less than a part. -/
theorem half_spacing_lt
    (small : numerator < 2 ^ 53)
    (positive : 1 ≤ denominator)
    (above : 1 / 2 < (numerator / denominator : ℚ)) :
    spacing (numerator / denominator : ℚ) / 2 < 1 / denominator := by
  have quotient_pos : (0 : ℚ) < numerator / denominator := by linarith
  have numerator_lt : (numerator : ℚ) < 2 ^ 53 := by exact_mod_cast small
  have lower := (binaryExponent_bounds quotient_pos).1
  have normal : -1 ≤ binaryExponent (numerator / denominator : ℚ) :=
    le_binaryExponent (by norm_num; linarith)
  have gridExponent_eq : gridExponent (numerator / denominator : ℚ) =
      binaryExponent (numerator / denominator : ℚ) - 52 := max_eq_left (by omega)
  rw [spacing_eq, gridExponent_eq, zpow_sub₀ two_ne_zero]
  calc (2 : ℚ) ^ binaryExponent (numerator / denominator : ℚ) / 2 ^ (52 : ℤ) / 2
      ≤ numerator / denominator / 2 ^ (52 : ℤ) / 2 := by gcongr
    _ = numerator / 2 ^ 53 / denominator := by
        norm_num
        ring
    _ < 1 / denominator := by
        gcongr
        rwa [div_lt_one (by positivity)]

/-- Rounding does not take a quotient to the next whole number. -/
theorem gridValue_div_lt
    (small : numerator < 2 ^ 53)
    (positive : 1 ≤ denominator) :
    gridValue (numerator / denominator) < (numerator / denominator + 1 : ℕ) := by
  obtain above | below := lt_or_ge (1 / 2) (numerator / denominator : ℚ)
  · have quotient_pos : (0 : ℚ) < numerator / denominator := by linarith
    have quotient_lt : (numerator / denominator : ℚ) < 2 ^ ((52 : ℤ) + 1) := by
      have numerator_lt : (numerator : ℚ) < 2 ^ ((52 : ℤ) + 1) := by
        exact_mod_cast small
      exact (div_le_self (Nat.cast_nonneg _) (by exact_mod_cast positive)).trans_lt
        numerator_lt
    have fine : gridExponent (numerator / denominator : ℚ) ≤ 0 := by
      have := binaryExponent_le quotient_pos quotient_lt
      unfold gridExponent
      omega
    have half_lt := half_spacing_lt small positive above
    have part_le := div_add_part_le numerator positive
    exact gridValue_lt quotient_pos fine (by linarith)
  · -- A quotient of at most one half stays there.
    have bounded : (numerator / denominator : ℚ) ≤
        2 ^ (-1 : ℤ) + 2 ^ ((-1 : ℤ) - 54) := by
      norm_num at below ⊢
      linarith
    have gridValue_le := (round_eq_gridValue (by positivity) (by norm_num) (by norm_num)
      bounded).2
    have whole_nonneg : (0 : ℚ) ≤ (numerator / denominator : ℕ) := Nat.cast_nonneg _
    rw [Nat.cast_add_one]
    norm_num at gridValue_le
    linarith

/-- The rounded quotient of whole numbers has the right whole part. -/
theorem floor_round_div
    (small : numerator < 2 ^ 53)
    (positive : 1 ≤ denominator) :
    Arithmetic.floor (round (numerator / denominator)) =
      finite (numerator / denominator : ℕ) := by
  have nonneg : (0 : ℚ) ≤ numerator / denominator := by positivity
  have whole_lt : numerator / denominator < 2 ^ 53 :=
    (Nat.div_le_self _ _).trans_lt small
  have lower := round_mono (Nat.cast_nonneg (numerator / denominator))
    (Nat.cast_div_le (α := ℚ) (m := numerator) (n := denominator))
  have upper := gridValue_div_lt small positive
  rw [round_natCast whole_lt] at lower
  have bounded : (numerator / denominator : ℚ) ≤ 2 ^ (53 : ℤ) + 2 ^ ((53 : ℤ) - 54) := by
    have numerator_lt : (numerator : ℚ) ≤ 2 ^ (53 : ℤ) := by exact_mod_cast small.le
    have quotient_le := div_le_self (Nat.cast_nonneg (α := ℚ) numerator)
      (by exact_mod_cast positive : (1 : ℚ) ≤ denominator)
    have := two_zpow_pos ((53 : ℤ) - 54)
    linarith
  rw [(round_eq_gridValue nonneg (by norm_num) (by norm_num) bounded).1] at lower ⊢
  rw [finite_le_finite] at lower
  have floor_eq : ⌊gridValue (numerator / denominator : ℚ)⌋ =
      (numerator / denominator : ℕ) := by
    rw [Int.floor_eq_iff]
    push_cast at lower upper ⊢
    exact ⟨lower, upper⟩
  rw [floor_finite, floor_eq, Int.cast_natCast]

end Quotients

end Binary64
end Backpressure
