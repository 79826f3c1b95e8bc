import Backpressure.Proofs.Binary64.Whole

/-!
# Doubles without a sign

Amounts of time and of bytes have no negative sign.  Products, quotients and
floors of such doubles have none, either, even where an overflow makes them
infinite or leaves no number at all.
-/

namespace Backpressure
namespace Binary64

/-- Whether a double has no negative sign.  What is not a number has none. -/
def Unsigned (value : Binary64) : Prop :=
  value.isNegative = false

variable {value first second : Binary64}

theorem unsigned_nan : Unsigned nan := rfl

theorem unsigned_endless : Unsigned (infinity false) := rfl

theorem unsigned_finite
    {value : ℚ}
    (nonneg : 0 ≤ value) :
    Unsigned (finite value) :=
  decide_eq_false (not_lt.mpr nonneg)

/-- Without a sign there are three kinds of doubles. -/
theorem Unsigned.cases (unsigned : Unsigned value) :
    value = nan ∨ value = infinity false ∨
      ∃ number : ℚ, value = finite number ∧ 0 ≤ number := by
  cases value with
  | nan => exact .inl rfl
  | infinity negative =>
      cases negative with
      | false => exact .inr (.inl rfl)
      | true => contradiction
  | finite number =>
      exact .inr (.inr ⟨number, rfl, not_lt.mp (of_decide_eq_false unsigned)⟩)
  | negativeZero => contradiction

theorem unsigned_round
    {value : ℚ}
    (nonneg : 0 ≤ value) :
    Unsigned (round value) := by
  obtain endless | round_eq := round_of_nonneg nonneg
  · rw [endless]
    exact unsigned_endless
  · rw [round_eq]
    exact unsigned_finite (gridValue_nonneg nonneg)

/-- What is at least zero has no sign, whatever the other number was. -/
theorem unsigned_larger_zero (value : Binary64) :
    Unsigned (Arithmetic.larger 0 value) := by
  rw [literal_zero]
  cases value with
  | nan => exact unsigned_nan
  | infinity negative =>
      cases negative with
      | false => exact unsigned_endless
      | true => exact unsigned_finite le_rfl
  | finite number =>
      rw [larger_finite]
      exact unsigned_finite (le_max_left 0 number)
  | negativeZero => exact unsigned_finite le_rfl

theorem Unsigned.floor (unsigned : Unsigned value) :
    Unsigned (Arithmetic.floor value) := by
  obtain rfl | rfl | ⟨number, rfl, nonneg⟩ := unsigned.cases
  · exact unsigned_nan
  · exact unsigned_endless
  · rw [floor_finite]
    exact unsigned_finite (by exact_mod_cast Int.floor_nonneg.mpr nonneg)

/-- An infinite factor gives an infinity, unless the other one is zero. -/
theorem unsigned_endless_product (number : ℚ) :
    Unsigned (if number = 0 then nan else infinity false) := by
  split_ifs
  · exact unsigned_nan
  · exact unsigned_endless

theorem Unsigned.multiply
    (firstUnsigned : Unsigned first)
    (secondUnsigned : Unsigned second) :
    Unsigned (first * second) := by
  obtain rfl | rfl | ⟨one, rfl, one_nonneg⟩ := firstUnsigned.cases
  · exact unsigned_nan
  · obtain rfl | rfl | ⟨two, rfl, _⟩ := secondUnsigned.cases
    · exact unsigned_nan
    · exact unsigned_endless
    · have sign : (finite two).isNegative = false := secondUnsigned
      change Unsigned (if two = 0 then nan
        else infinity (false != (finite two).isNegative))
      rw [sign]
      exact unsigned_endless_product two
  · obtain rfl | rfl | ⟨two, rfl, two_nonneg⟩ := secondUnsigned.cases
    · exact unsigned_nan
    · have sign : (finite one).isNegative = false := firstUnsigned
      change Unsigned (if one = 0 then nan
        else infinity ((finite one).isNegative != false))
      rw [sign]
      exact unsigned_endless_product one
    · rw [multiply_finite one_nonneg two_nonneg]
      exact unsigned_round (mul_nonneg one_nonneg two_nonneg)

theorem Unsigned.divide
    (firstUnsigned : Unsigned first)
    (secondUnsigned : Unsigned second) :
    Unsigned (first / second) := by
  obtain rfl | rfl | ⟨one, rfl, one_nonneg⟩ := firstUnsigned.cases
  · exact unsigned_nan
  · obtain rfl | rfl | ⟨two, rfl, _⟩ := secondUnsigned.cases
    · exact unsigned_nan
    · exact unsigned_nan
    · have sign : (finite two).isNegative = false := secondUnsigned
      change Unsigned (infinity (false != (finite two).isNegative))
      rw [sign]
      exact unsigned_endless
  · have oneSign : (finite one).isNegative = false := firstUnsigned
    obtain rfl | rfl | ⟨two, rfl, two_nonneg⟩ := secondUnsigned.cases
    · exact unsigned_nan
    · change Unsigned (zero ((finite one).isNegative != false))
      rw [oneSign]
      exact unsigned_finite le_rfl
    · obtain rfl | two_pos := two_nonneg.eq_or_lt
      · change Unsigned (if one = 0 then nan
          else infinity ((finite one).isNegative != false))
        rw [oneSign]
        exact unsigned_endless_product one
      · rw [divide_finite one_nonneg two_pos]
        exact unsigned_round (div_nonneg one_nonneg two_pos.le)

/-- No finite number makes an infinity smaller. -/
theorem endless_subtract_finite (number : ℚ) :
    infinity false - finite number = infinity false := by
  change add (infinity false)
    (if number = 0 then negativeZero else finite (-number)) = _
  split_ifs
  · rfl
  · rfl

/-- Less may be taken away. -/
theorem Unsigned.subtract_of_not_le
    (firstUnsigned : Unsigned first)
    (secondUnsigned : Unsigned second)
    (more : ¬first ≤ second) :
    Unsigned (first - second) := by
  obtain rfl | rfl | ⟨one, rfl, _⟩ := firstUnsigned.cases
  · exact unsigned_nan
  · obtain rfl | rfl | ⟨two, rfl, _⟩ := secondUnsigned.cases
    · exact unsigned_nan
    · exact unsigned_nan
    · rw [endless_subtract_finite]
      exact unsigned_endless
  · obtain rfl | rfl | ⟨two, rfl, _⟩ := secondUnsigned.cases
    · exact unsigned_nan
    · exact absurd rfl more
    · rw [finite_le_finite, not_le] at more
      rw [subtract_finite]
      exact unsigned_round (sub_nonneg.mpr more.le)

end Binary64
end Backpressure
