import Backpressure.Proofs.Binary64.Whole
import Backpressure.Proofs.Controller.Steps

/-!
# Windows of doubles

The window of a controller never leaves its bounds, whatever is measured: it
starts within them, and each adjustment and each reset keeps it there.
-/

namespace Backpressure

namespace Window

open Binary64

/-- A whole number of bytes within the bounds. -/
def Ranged (window : Binary64) : Prop :=
  ∃ bytes : ℕ, window = finite bytes ∧ minimum ≤ bytes ∧ bytes ≤ maximum

/-- A window that is within its bounds, unless it is not a number at all. -/
def Bounded (window : Binary64) : Prop :=
  window = nan ∨ Ranged window

theorem minimum_eq : ((minimum : ℕ) : Binary64) = finite minimum :=
  natCast_eq (by norm_num [minimum])

theorem maximum_eq : ((maximum : ℕ) : Binary64) = finite maximum :=
  natCast_eq (by norm_num [maximum])

theorem minimum_le_maximum : minimum ≤ maximum := by
  norm_num [minimum, maximum]

/-- An accepted window is a whole number within the bounds. -/
theorem Accepted.ranged
    {window : Binary64}
    (accepted : Accepted window) :
    Ranged window := by
  obtain ⟨whole, lower, upper⟩ := accepted
  rw [minimum_eq] at lower
  rw [maximum_eq] at upper
  cases window with
  | nan => exact absurd upper (not_nan_le _)
  | infinity negative =>
      cases negative with
      | false => exact absurd upper (by decide)
      | true => exact absurd lower (by decide)
  | negativeZero => exact absurd lower (by decide)
  | finite value =>
      have floor_eq : ((⌊value⌋ : ℤ) : ℚ) = value := by
        change decide ((⌊value⌋ : ℚ) = value) = true at whole
        simpa using whole
      rw [finite_le_finite] at lower upper
      have nonneg : 0 ≤ ⌊value⌋ := by
        rw [Int.floor_nonneg]
        exact le_trans (by norm_num [minimum]) lower
      obtain ⟨bytes, bytes_eq⟩ := Int.eq_ofNat_of_zero_le nonneg
      rw [bytes_eq, Int.cast_natCast] at floor_eq
      subst floor_eq
      exact ⟨bytes, rfl, by exact_mod_cast lower, by exact_mod_cast upper⟩

/-! ## Adjustments -/

/-- What is a whole number, or an infinity, is taken into the bounds. -/
theorem ranged_clamp
    {value : Binary64}
    (number : value ≠ nan)
    (whole : Arithmetic.floor value = value) :
    Ranged (clamp value) := by
  have smaller_eq : Arithmetic.smaller (finite maximum) (finite minimum) =
      finite minimum := by
    rw [smaller_finite, ← Nat.cast_min, min_eq_right minimum_le_maximum]
  unfold clamp
  rw [minimum_eq, maximum_eq]
  cases value with
  | nan => contradiction
  | finite value =>
      rw [floor_finite, finite.injEq] at whole
      rw [larger_finite, smaller_finite]
      have nonneg : (0 : ℤ) ≤ max (minimum : ℤ) ⌊value⌋ :=
        le_max_of_le_left (Int.natCast_nonneg _)
      obtain ⟨larger, larger_eq⟩ := Int.eq_ofNat_of_zero_le nonneg
      have value_eq : max (minimum : ℚ) value = larger := by
        rw [← whole]
        exact_mod_cast larger_eq
      have larger_ge : minimum ≤ larger := by
        have := le_max_left (minimum : ℤ) ⌊value⌋
        omega
      rw [value_eq, ← Nat.cast_min]
      exact ⟨_, rfl, le_min minimum_le_maximum larger_ge, min_le_left _ _⟩
  | infinity negative =>
      cases negative with
      | false => exact ⟨maximum, rfl, minimum_le_maximum, le_rfl⟩
      | true => exact ⟨minimum, smaller_eq, le_rfl, minimum_le_maximum⟩
  | negativeZero =>
      have larger_eq : Arithmetic.larger (finite minimum) negativeZero =
          finite minimum := by
        change larger (finite minimum) negativeZero = _
        norm_num [larger, less, minimum]
      rw [larger_eq]
      exact ⟨minimum, smaller_eq, le_rfl, minimum_le_maximum⟩

@[simp] theorem clamp_nan : clamp nan = nan := by
  unfold clamp
  rw [larger_nan_right, smaller_nan_right]

theorem floor_floor (value : Binary64) :
    Arithmetic.floor (Arithmetic.floor value) = Arithmetic.floor value := by
  cases value with
  | finite value => rw [floor_finite, floor_finite, Int.floor_intCast]
  | _ => rfl

/-- A step leads from a window to a whole number. -/
theorem exists_step
    {window : Binary64}
    (ranged : Ranged window)
    {step : ℕ}
    (small : step ≤ maximum) :
    (∃ whole : ℤ, window + (step : Binary64) = finite whole) ∧
      ∃ whole : ℤ, window - (step : Binary64) = finite whole := by
  obtain ⟨bytes, rfl, _, bytes_le⟩ := ranged
  have maximum_lt : (maximum : ℤ) + maximum < 2 ^ 53 := by norm_num [maximum]
  rw [natCast_eq (show step < 2 ^ 53 by omega)]
  constructor
  · refine ⟨bytes + step, ?_⟩
    rw [add_finite, ← Binary64.round_intCast (abs_lt.mpr ⟨by omega, by omega⟩)]
    push_cast
    rfl
  · refine ⟨bytes - step, ?_⟩
    rw [subtract_finite, ← Binary64.round_intCast (abs_lt.mpr ⟨by omega, by omega⟩)]
    push_cast
    rfl

/-- What an adjustment aims at is whole, and it is a number unless a quotient
of the measured delays is none. -/
theorem apply_whole
    {window : Binary64}
    (ranged : Ranged window)
    (measurement : Measurement Binary64)
    (adjustment : Adjustment) :
    Arithmetic.floor (apply measurement window adjustment) =
        apply measurement window adjustment ∧
      (apply measurement window adjustment = nan →
        Arithmetic.floor (window * measurement.base / measurement.lowest) =
          nan) := by
  have whole_finite : ∀ {value : Binary64},
      (∃ whole : ℤ, value = finite whole) →
        Arithmetic.floor value = value ∧ value ≠ nan := by
    rintro value ⟨whole, rfl⟩
    refine ⟨?_, by simp⟩
    rw [floor_finite, Int.floor_intCast]
  have decrement_le : decrement ≤ maximum := by
    norm_num [decrement, maximum]
  have increment_le : increment ≤ maximum := by
    norm_num [increment, maximum]
  have fastIncrement_le : fastIncrement ≤ maximum := by
    norm_num [fastIncrement, maximum]
  cases adjustment with
  | shrinkMultiplicative => exact ⟨floor_floor _, id⟩
  | shrink =>
      obtain ⟨whole, number⟩ :=
        whole_finite (exists_step ranged decrement_le).2
      exact ⟨whole, fun none => absurd none number⟩
  | growFast =>
      obtain ⟨whole, number⟩ :=
        whole_finite (exists_step ranged fastIncrement_le).1
      exact ⟨whole, fun none => absurd none number⟩
  | grow =>
      obtain ⟨whole, number⟩ :=
        whole_finite (exists_step ranged increment_le).1
      exact ⟨whole, fun none => absurd none number⟩
  | hold =>
      obtain ⟨bytes, rfl, _⟩ := ranged
      obtain ⟨whole, number⟩ :=
        whole_finite ⟨(bytes : ℤ), by rw [Int.cast_natCast]⟩
      exact ⟨whole, fun none => absurd none number⟩

@[simp] theorem apply_nan
    (measurement : Measurement Binary64)
    (adjustment : Adjustment) :
    apply measurement nan adjustment = nan := by
  cases adjustment <;> rfl

/-- An adjustment by a quotient that is a number leads to a whole window. -/
theorem Ranged.next
    {window : Binary64}
    (ranged : Ranged window)
    {measurement : Measurement Binary64}
    (number : Arithmetic.floor
      (window * measurement.base / measurement.lowest) ≠ nan) :
    Ranged (next measurement window) := by
  obtain ⟨whole, none⟩ := apply_whole ranged measurement (adjustment measurement)
  exact ranged_clamp (fun absent => number (none absent)) whole

/-- Whatever was measured, an adjustment does not leave the bounds. -/
theorem Bounded.next
    {window : Binary64}
    (bounded : Bounded window)
    (measurement : Measurement Binary64) :
    Bounded (next measurement window) := by
  unfold Window.next
  obtain rfl | ranged := bounded
  · left
    rw [apply_nan, clamp_nan]
  · have whole :=
      (apply_whole ranged measurement (adjustment measurement)).1
    generalize apply measurement window (adjustment measurement) = value
      at whole
    by_cases none : value = nan
    · left
      rw [none, clamp_nan]
    · exact .inr (ranged_clamp none whole)

theorem Ranged.smaller
    {first second : Binary64}
    (firstRanged : Ranged first)
    (secondRanged : Ranged second) :
    Ranged (Arithmetic.smaller first second) := by
  obtain ⟨one, rfl, one_ge, one_le⟩ := firstRanged
  obtain ⟨other, rfl, other_ge, other_le⟩ := secondRanged
  rw [smaller_finite, ← Nat.cast_min]
  exact ⟨_, rfl, le_min one_ge other_ge, min_le_of_left_le one_le⟩

theorem Bounded.smaller
    {first second : Binary64}
    (firstBounded : Bounded first)
    (secondBounded : Bounded second) :
    Bounded (Arithmetic.smaller first second) := by
  obtain rfl | firstRanged := firstBounded
  · left
    simp
  obtain rfl | secondRanged := secondBounded
  · left
    simp
  exact .inr (firstRanged.smaller secondRanged)

/-- No such window is full of nothing. -/
theorem Bounded.not_le_zero
    {window : Binary64}
    (bounded : Bounded window) :
    ¬window ≤ 0 := by
  obtain rfl | ⟨bytes, rfl, bytes_ge, _⟩ := bounded
  · simp
  · have minimum_pos : 0 < minimum := by norm_num [minimum]
    rw [literal_zero, finite_le_finite, not_le]
    exact_mod_cast minimum_pos.trans_le bytes_ge

end Window

namespace Controller

open Binary64

/-- The controller counts on the ring and keeps its windows within bounds. -/
structure Windowed (controller : Controller Binary64) : Prop where
  /-- Positions are counted on the ring. -/
  counting : controller.config.counting = .wrapping
  /-- The window to start with is within bounds. -/
  initialWindow : Window.Bounded controller.config.initialWindow
  /-- The window is within bounds. -/
  window : Window.Bounded controller.window

theorem windowed_of_start
    {options : Options Binary64}
    {verifyByDefault : Bool}
    {now : Binary64}
    {controller : Controller Binary64}
    (started : start options verifyByDefault now = .ok controller) :
    controller.Windowed := by
  obtain ⟨config, rfl, accepted, counting⟩ := start_ok started
  have bounded : Window.Bounded config.initialWindow := .inr accepted.ranged
  exact ⟨counting, bounded, bounded⟩

/-- The controller that is started at clock reading zero without any wishes. -/
def byDefault : Controller Binary64 :=
  fresh ⟨(Window.initial : Binary64), true, .wrapping⟩ 0

theorem start_byDefault : start ⟨none, none⟩ true 0 = .ok byDefault := by
  have accepted : Window.Accepted (Window.initial : Binary64) := by
    decide +kernel
  exact if_pos accepted

/-- Every report keeps the windows within bounds, at any clock reading. -/
theorem Windowed.perform
    {controller : Controller Binary64}
    (windowed : controller.Windowed)
    (now : Binary64)
    (action : Action Binary64) :
    (controller.perform now action).state.Windowed := by
  obtain ⟨counting, initialWindow, window⟩ := windowed
  cases action with
  | recordProgress total =>
      unfold Controller.perform
      refine ⟨by simpa, by simpa, ?_⟩
      obtain kept | reset := controller.window_recordProgress now total
      · rw [kept]
        exact window
      · rw [reset]
        exact initialWindow.smaller window
  | probeSent => exact ⟨counting, initialWindow, window⟩
  | probeAnswered =>
      unfold Controller.perform
      refine ⟨by simpa, by simpa, ?_⟩
      obtain kept | ⟨measurement, adjusted⟩ :=
        controller.window_probeAnswered now
      · rw [kept]
        exact window
      · rw [adjusted]
        exact window.next measurement

end Controller
end Backpressure
