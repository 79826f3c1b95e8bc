import Backpressure.Proofs.Binary64.Monotone

/-!
# Byte counters among the doubles

Byte counters are doubles that stand for whole numbers.  The ring keeps their remainders, and
as long as no sum and no difference takes more than 53 bits, positions, distances and the
order of positions are those of the counters themselves, up to whole turns.
-/

namespace Backpressure

namespace Binary64

/-- Whether a double stands for a whole number.  Two of them stand for zero. -/
def Stands (value : Binary64) (number : ℤ) : Prop :=
  value.IsFinite ∧ value.toRat = number

variable {first second : Binary64} {one two : ℤ}

theorem stands_finite (number : ℤ) : Stands (finite number) number :=
  ⟨trivial, rfl⟩

theorem stands_negativeZero : Stands negativeZero 0 :=
  ⟨trivial, Int.cast_zero.symm⟩

/-- The residue of a whole number is its remainder. -/
theorem Stands.residue (stands : Stands first one) :
    Arithmetic.residue first = finite ((one % Arithmetic.ringSize : ℤ) : ℚ) := by
  change finite (Arithmetic.ringResidue first.toRat) = _
  rw [stands.2, Arithmetic.ringResidue_intCast]

/-- The sum of finite doubles is their exact sum, rounded.  Only a zero may have the other
sign. -/
theorem add_of_isFinite
    (firstFinite : first.IsFinite)
    (secondFinite : second.IsFinite) :
    first + second = round (first.toRat + second.toRat) ∨
      first + second = negativeZero ∧ first.toRat + second.toRat = 0 := by
  cases first with
  | nan => contradiction
  | infinity negative => contradiction
  | finite number =>
      cases second with
      | nan => contradiction
      | infinity negative => contradiction
      | finite other => exact .inl rfl
      | negativeZero => exact .inl rfl
  | negativeZero =>
      cases second with
      | nan => contradiction
      | infinity negative => contradiction
      | finite other => exact .inl rfl
      | negativeZero => exact .inr ⟨rfl, add_zero 0⟩

/-- Whole numbers of at most 53 bits are not rounded. -/
theorem stands_of_round
    {value : Binary64}
    {result : ℚ}
    {number : ℤ}
    (rounded : value = round result ∨ value = negativeZero ∧ result = 0)
    (result_eq : result = number)
    (small : |number| < 2 ^ 53) :
    Stands value number := by
  obtain rfl | ⟨rfl, zero⟩ := rounded
  · rw [result_eq, round_intCast small]
    exact stands_finite number
  · rw [zero] at result_eq
    obtain rfl : number = 0 := by exact_mod_cast result_eq.symm
    exact stands_negativeZero

theorem Stands.add
    (firstStands : Stands first one)
    (secondStands : Stands second two)
    (small : |one + two| < 2 ^ 53) :
    Stands (first + second) (one + two) := by
  refine stands_of_round (add_of_isFinite firstStands.1 secondStands.1) ?_ small
  rw [firstStands.2, secondStands.2, Int.cast_add]

theorem Stands.subtract
    (firstStands : Stands first one)
    (secondStands : Stands second two)
    (small : |one - two| < 2 ^ 53) :
    Stands (first - second) (one - two) := by
  refine stands_of_round (subtract_of_isFinite firstStands.1 secondStands.1) ?_ small
  rw [firstStands.2, secondStands.2, Int.cast_sub]

end Binary64

namespace Counting

open Arithmetic Binary64

variable {first second : Binary64} {one two : ℤ}

/-- The position of a counter is its remainder. -/
theorem position_of_stands (stands : Stands first one) :
    wrapping.position first = finite ((one % ringSize : ℤ) : ℚ) :=
  stands.residue

theorem stands_position (stands : Stands first one) :
    Stands (wrapping.position first) (one % ringSize) := by
  rw [position_of_stands stands]
  exact stands_finite _

theorem distance_of_stands
    (firstStands : Stands first one)
    (secondStands : Stands second two)
    (small : |one - two| < 2 ^ 53) :
    wrapping.distance first second = finite (((one - two) % ringSize : ℤ) : ℚ) :=
  position_of_stands (firstStands.subtract secondStands small)

/-- A counter is after another one if it is ahead by less than half a turn. -/
theorem isAfter_of_stands
    (firstStands : Stands first one)
    (secondStands : Stands second two)
    (small : |one - two| < 2 ^ 53) :
    wrapping.isAfter first second = true ↔
      (one - two) % ringSize ≠ 0 ∧ (one - two) % ringSize < halfRing := by
  have half_eq : ((halfRing : ℕ) : Binary64) = finite halfRing :=
    natCast_eq (by norm_num [halfRing])
  unfold isAfter
  dsimp only
  rw [distance_of_stands firstStands secondStands small, half_eq, literal_zero,
    Bool.and_eq_true, bne, finite_beq_finite, Bool.not_eq_true', decide_eq_false_iff_not,
    decide_eq_true_eq, finite_lt_finite]
  norm_cast

/-- Remainders are less than a turn apart. -/
theorem remainders_small (one two : ℤ) :
    |one % (ringSize : ℤ) - two % (ringSize : ℤ)| < 2 ^ 53 := by
  rw [abs_lt]
  unfold ringSize
  constructor <;> omega

/-- The ring stands for counters of any size.  Take doubles that stand for two whole numbers
of absolute values below 2 ^ 52.  The position of each is its remainder.  To add to a position
or to the counter is the same, the distance of two positions is the difference of the counters
up to whole turns, and of counters less than half a turn apart the ring knows which one is
greater.  No two positions are after each other, and neither is after the other one just if
the counters are whole turns apart, or whole turns and half a one. -/
theorem ring_of_counters
    (first second : Binary64)
    (one two : ℤ)
    (firstStands : Stands first one)
    (secondStands : Stands second two)
    (one_small : |one| < 2 ^ 52)
    (two_small : |two| < 2 ^ 52) :
    let position := wrapping.position first
    let other := wrapping.position second
    (position = finite ((one % 2 ^ 32 : ℤ) : ℚ) ∧ 0 ≤ one % 2 ^ 32 ∧ one % 2 ^ 32 < 2 ^ 32) ∧
      (wrapping.position (position + second) = wrapping.position (first + second) ∧
        wrapping.position (first + second) = finite (((one + two) % 2 ^ 32 : ℤ) : ℚ)) ∧
      wrapping.distance position other = finite (((one - two) % 2 ^ 32 : ℤ) : ℚ) ∧
      (|one - two| < 2 ^ 31 → (wrapping.isAfter position other = true ↔ two < one)) ∧
      ¬(wrapping.isAfter position other = true ∧ wrapping.isAfter other position = true) ∧
      (wrapping.isAfter position other = false ∧ wrapping.isAfter other position = false ↔
        (one - two) % 2 ^ 32 = 0 ∨ (one - two) % 2 ^ 32 = 2 ^ 31) := by
  intro position other
  have size_eq : ((ringSize : ℕ) : ℤ) = 2 ^ 32 := by norm_num [ringSize]
  have half_eq : ((halfRing : ℕ) : ℤ) = 2 ^ 31 := by norm_num [halfRing]
  have positionStands := stands_position firstStands
  have otherStands := stands_position secondStands
  have ahead := isAfter_of_stands positionStands otherStands (remainders_small one two)
  have behind := isAfter_of_stands otherStands positionStands (remainders_small two one)
  have distance_eq :=
    distance_of_stands positionStands otherStands (remainders_small one two)
  rw [← Int.sub_emod, size_eq] at distance_eq
  rw [← Int.sub_emod, size_eq, half_eq] at ahead behind
  have position_eq := position_of_stands firstStands
  rw [abs_lt] at one_small two_small
  have sum_small : |one + two| < 2 ^ 53 := by
    rw [abs_lt]
    constructor <;> omega
  have moved_small : |one % (ringSize : ℤ) + two| < 2 ^ 53 := by
    rw [abs_lt, size_eq]
    constructor <;> omega
  have sum_eq := position_of_stands (firstStands.add secondStands sum_small)
  have moved_eq := position_of_stands (positionStands.add secondStands moved_small)
  rw [Int.emod_add_emod] at moved_eq
  rw [size_eq] at position_eq sum_eq moved_eq
  refine ⟨⟨position_eq, by omega, by omega⟩, ⟨moved_eq.trans sum_eq.symm, sum_eq⟩,
    distance_eq, ?_, ?_, ?_⟩
  · intro near
    rw [abs_lt] at near
    rw [ahead]
    omega
  · rw [ahead, behind]
    omega
  · rw [← Bool.not_eq_true, ← Bool.not_eq_true, ahead, behind]
    omega

theorem ring_of_counters_overTheEnd :
    let first := finite (2 ^ 51 + 3)
    let second := finite (2 ^ 51 - 5)
    let position := wrapping.position first
    let other := wrapping.position second
    (Stands first (2 ^ 51 + 3) ∧ Stands second (2 ^ 51 - 5)) ∧
      (position = finite 3 ∧ wrapping.position (position + second) = finite 4294967294) ∧
      wrapping.distance position other = finite 8 ∧
      wrapping.isAfter position other = true ∧
      wrapping.isAfter other position = false := by
  intro first second position other
  have firstStands : Stands first (2 ^ 51 + 3) := ⟨trivial, by norm_num [first]⟩
  have secondStands : Stands second (2 ^ 51 - 5) := ⟨trivial, by norm_num [second]⟩
  obtain ⟨⟨position_eq, -⟩, ⟨moved_eq, sum_eq⟩, distance_eq, ordered, asymmetric, -⟩ :=
    ring_of_counters first second _ _ firstStands secondStands (by norm_num) (by norm_num)
  have ahead : wrapping.isAfter position other = true :=
    (ordered (by norm_num)).mpr (by norm_num)
  norm_num at position_eq moved_eq sum_eq distance_eq
  refine ⟨⟨firstStands, secondStands⟩, ⟨position_eq, moved_eq.trans sum_eq⟩, distance_eq,
    ahead, ?_⟩
  exact Bool.eq_false_iff.mpr fun behind => asymmetric ⟨ahead, behind⟩

end Counting
end Backpressure
