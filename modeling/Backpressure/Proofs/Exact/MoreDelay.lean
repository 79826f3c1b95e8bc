import Backpressure.Proofs.Exact.Direction

/-!
# More delay and the window

Of two measurements of one path, the one with more delay leaves a window that is not
larger, with a single exception.  A delay beyond the first limit takes the window down by
a fixed step, and one beyond the second limit scales it by the part of the round trip that
is wire latency.  If the wire latency is long, scaling can take less off a large window
than the step does, and then the window is larger just beyond the second limit than just
before it.
-/

namespace Backpressure

open Arithmetic

/-- Two measurements of one path, of which the second one shows no less delay. -/
structure Measurement.NoFaster (first second : Measurement ℚ) : Prop where
  /-- The wire latency is the same. -/
  base_eq : second.base = first.base
  /-- The lowest round trip is not below that of the first one. -/
  lowest_le : first.lowest ≤ second.lowest
  /-- Neither is that of the congested samples, if there are such samples at all. -/
  congested_le : Option.Rel (· ≤ ·) first.lowestCongested second.lowestCongested

namespace Measurement

variable {first second : Measurement ℚ}

theorem NoFaster.delay_le (noFaster : first.NoFaster second) :
    first.lowest - first.base ≤ second.lowest - second.base := by
  rw [noFaster.base_eq]
  exact sub_le_sub_right noFaster.lowest_le _

theorem NoFaster.long (noFaster : first.NoFaster second) (long : first.Long) :
    second.Long :=
  long.trans_le noFaster.delay_le

/-- The congested samples of the first measurement were not delayed for longer. -/
theorem NoFaster.exists_congested
    (noFaster : first.NoFaster second)
    {congested : ℚ}
    (known : second.lowestCongested = some congested) :
    ∃ less, first.lowestCongested = some less ∧
      less - first.base ≤ congested - second.base := by
  have congested_le := noFaster.congested_le
  rw [known] at congested_le
  generalize first.lowestCongested = unlimited at congested_le
  cases congested_le with
  | some less_le =>
      refine ⟨_, rfl, ?_⟩
      rw [noFaster.base_eq]
      exact sub_le_sub_right less_le _

end Measurement

namespace Window

variable {first second : Measurement ℚ} {window : ℚ}

/-! ## Windows after two measurements -/

/-- A step up is not longer after more delay. -/
theorem next_le_next_of_short
    (noFaster : first.NoFaster second)
    (firstOrder : first.InOrder)
    (secondOrder : second.InOrder)
    (accepted : Accepted window)
    (short : second.Short) :
    next second window ≤ next first window := by
  obtain ⟨congested, known, less⟩ := short
  obtain ⟨shorter, shorterKnown, shorter_le⟩ := noFaster.exists_congested known
  obtain ⟨second_eq, _⟩ := next_of_short secondOrder accepted known less
  obtain ⟨first_eq, _⟩ := next_of_short firstOrder accepted shorterKnown
    (shorter_le.trans_lt less)
  rw [first_eq, second_eq]
  apply min_le_min le_rfl
  apply add_le_add le_rfl
  split_ifs with secondFast firstFast firstFast
  · exact le_rfl
  · exact absurd (shorter_le.trans_lt secondFast) firstFast
  · norm_num
  · exact le_rfl

/-- Scaling takes more off after more delay. -/
theorem scaled_le_scaled
    (noFaster : first.NoFaster second)
    (firstOrder : first.InOrder)
    (accepted : Accepted window) :
    (⌊window * second.base / second.lowest⌋ : ℚ) ≤
      ⌊window * first.base / first.lowest⌋ := by
  have lowest_pos := firstOrder.base_pos.trans_le firstOrder.base_le
  have product_nonneg : 0 ≤ window * first.base :=
    mul_nonneg accepted.pos.le firstOrder.base_pos.le
  rw [Int.cast_le, noFaster.base_eq]
  apply Int.floor_mono
  exact div_le_div_of_nonneg_left product_nonneg lowest_pos noFaster.lowest_le

/-- After two long delays the window is not larger after the longer one, unless only the
longer one scales it.  Then it is compared with a step down. -/
theorem next_le_next_iff_of_long
    (noFaster : first.NoFaster second)
    (firstOrder : first.InOrder)
    (secondOrder : second.InOrder)
    (accepted : Accepted window)
    (long : first.Long) :
    next second window ≤ next first window ↔
      first.lowest - first.base ≤ 100 → 100 < second.lowest - second.base →
        (⌊window * second.base / second.lowest⌋ : ℚ) ≤ max 4096 (window - 4096) := by
  obtain ⟨first_eq, _⟩ := next_of_long firstOrder accepted long
  obtain ⟨second_eq, _⟩ := next_of_long secondOrder accepted (noFaster.long long)
  rw [first_eq, second_eq]
  by_cases secondScales : 100 < second.lowest - second.base
  · by_cases firstScales : 100 < first.lowest - first.base
    · rw [if_pos firstScales, if_pos secondScales]
      refine iff_of_true ?_ fun steps => absurd firstScales steps.not_gt
      exact max_le_max le_rfl (scaled_le_scaled noFaster firstOrder accepted)
    · rw [if_neg firstScales, if_pos secondScales, max_le_iff]
      exact ⟨fun both _ _ => both.2,
        fun fewer => ⟨le_max_left _ _, fewer (not_lt.mp firstScales) secondScales⟩⟩
  · have firstSteps : ¬100 < first.lowest - first.base :=
      fun scales => secondScales (scales.trans_le noFaster.delay_le)
    rw [if_neg firstSteps, if_neg secondScales]
    exact iff_of_true le_rfl fun _ scales => absurd scales secondScales

/-- A delay that is not long does not take the window down, and a longer one does not take
it further up. -/
theorem next_le_next_of_not_long
    (noFaster : first.NoFaster second)
    (firstOrder : first.InOrder)
    (secondOrder : second.InOrder)
    (accepted : Accepted window)
    (notLong : ¬first.Long) :
    next second window ≤ next first window := by
  by_cases short : second.Short
  · exact next_le_next_of_short noFaster firstOrder secondOrder accepted short
  · calc next second window ≤ window :=
          not_lt.mp fun grows => short ((lt_next_iff secondOrder accepted).mp grows).1
      _ ≤ next first window :=
          not_lt.mp fun shrinks => notLong ((next_lt_iff firstOrder accepted).mp shrinks).1

end Window

namespace Controller

variable {controller : Controller ℚ}

/-- With enough samples whose round trips are in order, the window is adjusted. -/
theorem adjustWindow_of_inOrder
    {base lowest : ℚ}
    (enough : 3 ≤ controller.samples)
    (inOrder : (⟨base, lowest, controller.lowestCongested⟩ : Measurement ℚ).InOrder)
    (now : ℚ) :
    controller.adjustWindow now base lowest =
      controller.adjust now ⟨base, lowest, controller.lowestCongested⟩ := by
  have noViolation : controller.violation base lowest = none := by
    unfold violation
    rw [if_pos inOrder.base_le]
    cases known : controller.lowestCongested with
    | none => rfl
    | some congested =>
        exact if_pos (inOrder.base_le.trans (inOrder.lowest_le congested known))
  have notFew : ¬controller.samples < (Window.samplesPerAdjustment : ℚ) :=
    enough.not_gt
  unfold adjustWindow
  rw [if_neg notFew, noViolation]
  simp

/-- More delay leaves no larger window, with one exception.  Take two controllers of the
same window that have enough samples, and let both adjust it at any readings for the same
wire latency.  Let the lowest round trip of the second one be no less than that of the
first, and that of the congested samples, too, which both have or both lack.  Neither
adjustment fails.  Unless the first one takes a step down and the second one scales the
window, the second window is not above the first one.  In this case it is so exactly if
the scaled window is not above the one after the step. -/
theorem window_falls_with_delay
    (first second : Controller ℚ)
    (firstNow secondNow window base lowest more : ℚ)
    (accepted : Window.Accepted window)
    (firstWindow : first.window = window)
    (secondWindow : second.window = window)
    (firstEnough : 3 ≤ first.samples)
    (secondEnough : 3 ≤ second.samples)
    (base_pos : 1 ≤ base)
    (base_le : base ≤ lowest)
    (lowest_le : lowest ≤ more)
    (firstCongested : ∀ congested, first.lowestCongested = some congested →
      lowest ≤ congested)
    (secondCongested : ∀ congested, second.lowestCongested = some congested →
      more ≤ congested)
    (congested_le : Option.Rel (· ≤ ·) first.lowestCongested second.lowestCongested) :
    let adjusted := first.adjustWindow firstNow base lowest
    let delayed := second.adjustWindow secondNow base more
    adjusted.fault = none ∧ delayed.fault = none ∧
      (¬(50 < lowest - base ∧ lowest - base ≤ 100 ∧ 100 < more - base) →
        delayed.state.window ≤ adjusted.state.window) ∧
      (50 < lowest - base → lowest - base ≤ 100 → 100 < more - base →
        (delayed.state.window ≤ adjusted.state.window ↔
          (⌊window * base / more⌋ : ℚ) ≤ max 4096 (window - 4096))) := by
  intro adjusted delayed
  have firstOrder :
      (⟨base, lowest, first.lowestCongested⟩ : Measurement ℚ).InOrder :=
    ⟨one_pos.trans_le base_pos, base_le, firstCongested⟩
  have secondOrder :
      (⟨base, more, second.lowestCongested⟩ : Measurement ℚ).InOrder :=
    ⟨one_pos.trans_le base_pos, base_le.trans lowest_le, secondCongested⟩
  have noFaster :
      (⟨base, lowest, first.lowestCongested⟩ : Measurement ℚ).NoFaster
        ⟨base, more, second.lowestCongested⟩ :=
    ⟨rfl, lowest_le, congested_le⟩
  simp only [adjusted, delayed]
  rw [adjustWindow_of_inOrder firstEnough firstOrder,
    adjustWindow_of_inOrder secondEnough secondOrder]
  simp only [adjust, Outcome.fault_reporting, Outcome.state_reporting, firstWindow,
    secondWindow, true_and]
  by_cases long : 50 < lowest - base
  · have iff_fewer := Window.next_le_next_iff_of_long noFaster firstOrder secondOrder
      accepted long
    rw [iff_fewer]
    constructor
    · intro usual steps scales
      exact absurd ⟨long, steps, scales⟩ usual
    · intro _ steps scales
      exact ⟨fun fewer => fewer steps scales, fun fewer _ _ => fewer⟩
  · refine ⟨fun _ => ?_, fun notShort => absurd notShort long⟩
    exact Window.next_le_next_of_not_long noFaster firstOrder secondOrder accepted long

/-- The default controller after three samples, of which the congested ones took this
long. -/
def threeSampled (lowestCongested : Option ℚ) : Controller ℚ :=
  { exactDefault with samples := 3, lowestCongested }

/-- A step up is shorter after more delay, and at a short wire latency scaling takes more
off than a step does. -/
theorem window_falls_with_delay_shortLatency :
    let faster := (threeSampled (some 23)).adjustWindow 0 20 22
    let slower := (threeSampled (some 44)).adjustWindow 0 20 40
    let stepped := (threeSampled none).adjustWindow 0 20 90
    let scaled := (threeSampled none).adjustWindow 0 20 200
    (faster.state.window = 24576 ∧ slower.state.window = 20480 ∧
        slower.state.window ≤ faster.state.window) ∧
      stepped.state.window = 12288 ∧ scaled.state.window = 4096 ∧
      scaled.state.window ≤ stepped.state.window := by
  intro faster slower stepped scaled
  have accepted : Window.Accepted (16384 : ℚ) := by decide +kernel
  obtain ⟨_, _, usual, _⟩ := window_falls_with_delay (threeSampled (some 23))
    (threeSampled (some 44)) 0 0 16384 20 22 40 accepted rfl rfl le_rfl le_rfl
    (by norm_num) (by norm_num) (by norm_num)
    (by rintro congested ⟨⟩; norm_num) (by rintro congested ⟨⟩; norm_num)
    (.some (by norm_num))
  obtain ⟨_, _, _, exceptional⟩ := window_falls_with_delay (threeSampled none)
    (threeSampled none) 0 0 16384 20 90 200 accepted rfl rfl le_rfl le_rfl
    (by norm_num) (by norm_num) (by norm_num) nofun nofun .none
  refine ⟨⟨by decide +kernel, by decide +kernel, usual (by norm_num)⟩,
    by decide +kernel, by decide +kernel, ?_⟩
  exact (exceptional (by norm_num) (by norm_num) (by norm_num)).mpr (by decide +kernel)

/-- At a wire latency of a second, a delay of 60 ms takes the window further down than
one of 101 ms. -/
theorem window_rises_with_delay :
    let stepped := (threeSampled none).adjustWindow 0 1000 1060
    let scaled := (threeSampled none).adjustWindow 0 1000 1101
    (threeSampled none).window = 16384 ∧ stepped.fault = none ∧ scaled.fault = none ∧
      stepped.state.window = 12288 ∧ scaled.state.window = 14881 ∧
      ¬scaled.state.window ≤ stepped.state.window := by
  decide +kernel

end Controller
end Backpressure
