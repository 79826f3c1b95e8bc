import Mathlib
import Backpressure.Counting
import Backpressure.Time

/-!
# Whole numbers in exact arithmetic

Exact arithmetic counts in rationals.  Rounding down makes a whole number of any
of them, and the ring gives the same answers as plain totals to every question
about whole numbers that are close enough together.
-/

namespace Backpressure
namespace Arithmetic

/-! ## The operations -/

theorem floor_exact (value : ℚ) :
    Arithmetic.floor value = (⌊value⌋ : ℚ) := rfl

theorem larger_exact (first second : ℚ) :
    Arithmetic.larger first second = max first second :=
  (max_def first second).symm

theorem smaller_exact (first second : ℚ) :
    Arithmetic.smaller first second = min first second :=
  (min_def first second).symm

theorem ringResidue_intCast (whole : ℤ) :
    ringResidue (whole : ℚ) = whole % ringSize := by
  simp [ringResidue, truncate]

/-- Reducing a whole number to the ring takes its remainder. -/
theorem residue_intCast (whole : ℤ) :
    Arithmetic.residue (whole : ℚ) = ((whole % ringSize : ℤ) : ℚ) :=
  congrArg Int.cast (ringResidue_intCast whole)

theorem residue_natCast (number : ℕ) :
    Arithmetic.residue (number : ℚ) = ((number % ringSize : ℕ) : ℚ) := by
  exact_mod_cast residue_intCast number

/-! ## Whole numbers -/

/-- A number without a fraction. -/
def Whole (value : ℚ) : Prop :=
  ∃ number : ℤ, value = number

theorem Whole.natCast (number : ℕ) : Whole number :=
  ⟨number, (Int.cast_natCast number).symm⟩

theorem Whole.zero : Whole 0 :=
  ⟨0, Int.cast_zero.symm⟩

theorem Whole.one : Whole 1 :=
  ⟨1, Int.cast_one.symm⟩

theorem Whole.floor (value : ℚ) : Whole (Arithmetic.floor value) :=
  ⟨⌊value⌋, rfl⟩

theorem Whole.residue (value : ℚ) : Whole (Arithmetic.residue value) :=
  ⟨ringResidue value, rfl⟩

section Closure

variable {first second : ℚ}

theorem Whole.add (firstWhole : Whole first) (secondWhole : Whole second) :
    Whole (first + second) := by
  obtain ⟨first, rfl⟩ := firstWhole
  obtain ⟨second, rfl⟩ := secondWhole
  exact ⟨first + second, (Int.cast_add first second).symm⟩

theorem Whole.sub (firstWhole : Whole first) (secondWhole : Whole second) :
    Whole (first - second) := by
  obtain ⟨first, rfl⟩ := firstWhole
  obtain ⟨second, rfl⟩ := secondWhole
  exact ⟨first - second, (Int.cast_sub first second).symm⟩

theorem Whole.larger (firstWhole : Whole first) (secondWhole : Whole second) :
    Whole (Arithmetic.larger first second) := by
  rw [larger_exact]
  obtain ⟨max_eq, _⟩ | ⟨max_eq, _⟩ := max_cases first second
  · rwa [max_eq]
  · rwa [max_eq]

theorem Whole.smaller (firstWhole : Whole first) (secondWhole : Whole second) :
    Whole (Arithmetic.smaller first second) := by
  rw [smaller_exact]
  obtain ⟨min_eq, _⟩ | ⟨min_eq, _⟩ := min_cases first second
  · rwa [min_eq]
  · rwa [min_eq]

end Closure

theorem larger_zero_nonneg (value : ℚ) :
    0 ≤ Arithmetic.larger 0 value := by
  rw [larger_exact]
  exact le_max_left _ _

/-- Between whole numbers, less means less by one. -/
theorem Whole.add_one_le_iff
    {first second : ℚ}
    (firstWhole : Whole first)
    (secondWhole : Whole second) :
    first + 1 ≤ second ↔ first < second := by
  obtain ⟨first, rfl⟩ := firstWhole
  obtain ⟨second, rfl⟩ := secondWhole
  norm_cast

/-- A whole number below a number is below its floor. -/
theorem Whole.le_floor_iff
    {bound value : ℚ}
    (boundWhole : Whole bound) :
    bound ≤ Arithmetic.floor value ↔ bound ≤ value := by
  obtain ⟨bound, rfl⟩ := boundWhole
  rw [floor_exact, Int.cast_le, Int.le_floor]

theorem floor_nonneg
    {value : ℚ}
    (nonneg : 0 ≤ value) :
    0 ≤ Arithmetic.floor value :=
  Whole.zero.le_floor_iff.mpr nonneg

/-- The whole share of a total that has passed before an interval is over is not
more than the total. -/
theorem floor_share_bounds
    {total elapsed interval : ℚ}
    (total_nonneg : 0 ≤ total)
    (elapsed_nonneg : 0 ≤ elapsed)
    (early : elapsed < interval) :
    0 ≤ Arithmetic.floor (total * elapsed / interval) ∧
      Arithmetic.floor (total * elapsed / interval) ≤ total := by
  have interval_pos := elapsed_nonneg.trans_lt early
  constructor
  · apply floor_nonneg
    positivity
  · apply (Int.floor_le _).trans
    rw [div_le_iff₀ interval_pos]
    exact mul_le_mul_of_nonneg_left early.le total_nonneg

/-- A whole number may be added after rounding down. -/
theorem Whole.floor_add
    {value : ℚ}
    (whole : Whole value)
    (other : ℚ) :
    Arithmetic.floor (other + value) = Arithmetic.floor other + value := by
  obtain ⟨number, rfl⟩ := whole
  rw [floor_exact, Int.floor_add_intCast, Int.cast_add]
  rfl

/-! ## The ring -/

section Ring

variable {first second : ℚ}

/-- Reducing a summand first makes no difference. -/
theorem residue_residue_add
    (firstWhole : Whole first)
    (secondWhole : Whole second) :
    Arithmetic.residue (Arithmetic.residue first + second) =
      Arithmetic.residue (first + second) := by
  obtain ⟨first, rfl⟩ := firstWhole
  obtain ⟨second, rfl⟩ := secondWhole
  rw [residue_intCast, ← Int.cast_add, ← Int.cast_add, residue_intCast,
    residue_intCast, Int.emod_add_emod]

theorem residue_residue_sub
    (firstWhole : Whole first)
    (secondWhole : Whole second) :
    Arithmetic.residue (Arithmetic.residue first - second) =
      Arithmetic.residue (first - second) := by
  obtain ⟨first, rfl⟩ := firstWhole
  obtain ⟨second, rfl⟩ := secondWhole
  rw [residue_intCast, ← Int.cast_sub, ← Int.cast_sub, residue_intCast,
    residue_intCast, Int.emod_sub_emod]

/-- A whole number on the ring is its own residue. -/
theorem residue_of_onRing
    {value : ℚ}
    (whole : Whole value)
    (nonneg : 0 ≤ value)
    (onRing : value < ringSize) :
    Arithmetic.residue value = value := by
  obtain ⟨number, rfl⟩ := whole
  rw [residue_intCast, Int.emod_eq_of_lt (by exact_mod_cast nonneg)
    (by exact_mod_cast onRing)]

end Ring

end Arithmetic

namespace Counting

open Arithmetic

theorem halfRing_lt_ringSize : (halfRing : ℚ) < ringSize := by
  norm_num [halfRing, ringSize]

/-- A distance on the ring is a remainder. -/
theorem distance_intCast (first second : ℤ) :
    wrapping.distance (first : ℚ) (second : ℚ) =
      (((first - second) % ringSize : ℤ) : ℚ) := by
  change Arithmetic.residue _ = _
  rw [← Int.cast_sub, residue_intCast]

/-- What is less than half of the ring ahead is after. -/
theorem isAfter_intCast (first second : ℤ) :
    wrapping.isAfter (first : ℚ) (second : ℚ) =
      decide (0 < (first - second) % ringSize ∧
        (first - second) % ringSize < halfRing) := by
  have remainder_nonneg : 0 ≤ (first - second) % (ringSize : ℤ) :=
    Int.emod_nonneg _ (by norm_num [ringSize])
  change (wrapping.distance _ _ != 0 && decide (wrapping.distance _ _ < _)) = _
  rw [distance_intCast, Bool.eq_iff_iff, Bool.and_eq_true, bne_iff_ne,
    decide_eq_true_eq, decide_eq_true_eq]
  norm_cast
  rw [remainder_nonneg.lt_iff_ne, ne_comm]

theorem distance_nonneg (first second : ℚ) :
    0 ≤ wrapping.distance first second := by
  change 0 ≤ ((ringResidue (first - second) : ℤ) : ℚ)
  exact_mod_cast (ringResidue_bounds (first - second)).1

section Ring

variable {first second : ℚ}

theorem distance_whole
    (counting : Counting)
    (firstWhole : Whole first)
    (secondWhole : Whole second) :
    Whole (counting.distance first second) := by
  cases counting with
  | wrapping => exact .residue _
  | unbounded => exact firstWhole.sub secondWhole

/-- Distances on the ring are those of the totals, reduced. -/
theorem distance_residue
    (firstWhole : Whole first)
    (secondWhole : Whole second) :
    wrapping.distance (Arithmetic.residue first) (Arithmetic.residue second) =
      Arithmetic.residue (first - second) := by
  obtain ⟨first, rfl⟩ := firstWhole
  obtain ⟨second, rfl⟩ := secondWhole
  rw [residue_intCast, residue_intCast, distance_intCast, ← Int.cast_sub,
    residue_intCast, Int.sub_emod_emod, Int.emod_sub_emod]

/-- Less than a turn forward, the ring knows the distance of totals. -/
theorem distance_residue_of_near
    (firstWhole : Whole first)
    (secondWhole : Whole second)
    (forward : second ≤ first)
    (near : first - second < ringSize) :
    wrapping.distance (Arithmetic.residue first) (Arithmetic.residue second) =
      first - second := by
  rw [distance_residue firstWhole secondWhole]
  exact residue_of_onRing (firstWhole.sub secondWhole) (sub_nonneg.mpr forward)
    near

/-- Less than a turn forward, only a position itself is equal to it. -/
theorem residue_beq_residue
    (firstWhole : Whole first)
    (secondWhole : Whole second)
    (forward : second ≤ first)
    (near : first - second < ringSize) :
    (Arithmetic.residue first == Arithmetic.residue second) =
      (first == second) := by
  rw [Bool.eq_iff_iff, beq_iff_eq, beq_iff_eq]
  refine ⟨fun same => ?_, fun same => by rw [same]⟩
  have distance_eq :=
    distance_residue_of_near firstWhole secondWhole forward near
  have none : Arithmetic.residue (0 : ℚ) = 0 :=
    residue_of_onRing .zero le_rfl (by norm_num [ringSize])
  rw [same, distance, position, sub_self, none] at distance_eq
  exact (sub_eq_zero.mp distance_eq.symm)

/-- Less than half a turn apart, the ring knows which of two totals is
ahead. -/
theorem isAfter_residue
    (firstWhole : Whole first)
    (secondWhole : Whole second)
    (ahead_lt : first - second < halfRing)
    (behind_lt : second - first < halfRing) :
    wrapping.isAfter (Arithmetic.residue first) (Arithmetic.residue second) =
      unbounded.isAfter first second := by
  obtain ⟨first, rfl⟩ := firstWhole
  obtain ⟨second, rfl⟩ := secondWhole
  rw [residue_intCast, residue_intCast, isAfter_intCast, Int.sub_emod_emod,
    Int.emod_sub_emod, isAfter_unbounded, decide_eq_decide, Int.cast_lt]
  unfold halfRing ringSize at *
  norm_cast at ahead_lt behind_lt
  omega

end Ring

end Counting

namespace Time

open Arithmetic

theorem elapsed_whole (earlier later : ℚ) : Whole (elapsed earlier later) :=
  .larger .zero (.floor _)

theorem elapsed_nonneg (earlier later : ℚ) : 0 ≤ elapsed earlier later :=
  larger_zero_nonneg _

/-- Waiting for whole milliseconds adds them to the time elapsed. -/
theorem elapsed_add
    {earlier later wait : ℚ}
    (forward : earlier ≤ later)
    (waitWhole : Whole wait)
    (waitNonneg : 0 ≤ wait) :
    elapsed earlier (later + wait) = elapsed earlier later + wait := by
  have span_nonneg := floor_nonneg (sub_nonneg.mpr forward)
  unfold elapsed
  rw [larger_exact, larger_exact, add_sub_right_comm, waitWhole.floor_add,
    max_eq_right span_nonneg, max_eq_right (add_nonneg span_nonneg waitNonneg)]

end Time

end Backpressure
