import Backpressure.Proofs.Exact.Controller

/-!
# The direction of the window

An adjustment takes the window down if the lowest round trip is far above the wire
latency, and up if that of the congested samples is close to it.  The rule looks at all
samples before it looks at the congested ones, but it need not: the wire latency, the
lowest round trip and the lowest congested one are always in this order, so a short delay
of the last one is a short delay of all.
-/

namespace Backpressure

open Arithmetic

/-! ## Measurements -/

/-- The round trips of a measurement are in order, and all of them take time. -/
structure Measurement.InOrder (measurement : Measurement ℚ) : Prop where
  /-- The wire latency takes time. -/
  base_pos : 0 < measurement.base
  /-- No sample is below the wire latency. -/
  base_le : measurement.base ≤ measurement.lowest
  /-- The congested samples are among all samples. -/
  lowest_le : ∀ congested, measurement.lowestCongested = some congested →
    measurement.lowest ≤ congested

/-- All samples were delayed for long. -/
def Measurement.Long (measurement : Measurement ℚ) : Prop :=
  50 < measurement.lowest - measurement.base

/-- Some sample was delayed for a short time only, although the window was full. -/
def Measurement.Short (measurement : Measurement ℚ) : Prop :=
  ∃ congested, measurement.lowestCongested = some congested ∧
    congested - measurement.base < 25

/-- The delay of all samples is not above that of the congested ones. -/
theorem Measurement.InOrder.not_long_of_short
    {measurement : Measurement ℚ}
    (inOrder : measurement.InOrder)
    (short : measurement.Short) :
    ¬measurement.Long := by
  obtain ⟨congested, known, short⟩ := short
  have lowest_le := inOrder.lowest_le congested known
  unfold Long
  linarith

namespace Window

theorem clamp_exact (value : ℚ) :
    clamp value = min 4194304 (max 4096 value) := by
  unfold clamp
  rw [smaller_exact, larger_exact]
  norm_num [minimum, maximum]

theorem adjustment_exact (measurement : Measurement ℚ) :
    adjustment measurement =
      if 100 < measurement.lowest - measurement.base then .shrinkMultiplicative
      else if 50 < measurement.lowest - measurement.base then .shrink
      else
        match measurement.lowestCongested with
        | none => .hold
        | some congested =>
          if congested - measurement.base < 5 then .growFast
          else if congested - measurement.base < 25 then .grow
          else .hold := by
  unfold adjustment
  cases measurement.lowestCongested with
  | none => rfl
  | some congested => rfl

section Next

variable {measurement : Measurement ℚ} {window : ℚ}

/-- After a long delay the window is scaled down or takes a step down, but not below the
smallest one. -/
theorem next_of_long
    (inOrder : measurement.InOrder)
    (accepted : Accepted window)
    (long : measurement.Long) :
    let shrunk := if 100 < measurement.lowest - measurement.base then
        (⌊window * measurement.base / measurement.lowest⌋ : ℚ)
      else window - 4096
    next measurement window = max 4096 shrunk ∧ shrunk < window := by
  intro shrunk
  unfold Measurement.Long at long
  have apply_eq : apply measurement window (adjustment measurement) = shrunk := by
    simp only [shrunk]
    rw [adjustment_exact, if_pos long]
    split_ifs
    · rfl
    · rfl
  have shrunk_lt : shrunk < window := by
    simp only [shrunk]
    split_ifs with veryLong
    · have lowest_pos := inOrder.base_pos.trans_le inOrder.base_le
      apply (Int.floor_le _).trans_lt
      rw [div_lt_iff₀ lowest_pos]
      exact mul_lt_mul_of_pos_left (by linarith) accepted.pos
    · linarith
  refine ⟨?_, shrunk_lt⟩
  have window_le : window ≤ 4194304 := accepted.le_maximum
  unfold next
  rw [apply_eq, clamp_exact]
  exact min_eq_right (max_le (by norm_num) (shrunk_lt.le.trans window_le))

/-- After a short delay of the congested samples the window takes a step up, but not
above the largest one. -/
theorem next_of_short
    (inOrder : measurement.InOrder)
    (accepted : Accepted window)
    {congested : ℚ}
    (known : measurement.lowestCongested = some congested)
    (short : congested - measurement.base < 25) :
    let grown := window + if congested - measurement.base < 5 then 8192 else 4096
    next measurement window = min 4194304 grown ∧ window < grown := by
  intro grown
  have notLong : ¬50 < measurement.lowest - measurement.base :=
    inOrder.not_long_of_short ⟨congested, known, short⟩
  have notVeryLong : ¬100 < measurement.lowest - measurement.base := by linarith
  have apply_eq : apply measurement window (adjustment measurement) = grown := by
    simp only [grown]
    rw [adjustment_exact, if_neg notVeryLong, if_neg notLong, known]
    simp only [if_pos short]
    split_ifs
    · rfl
    · rfl
  have lt_grown : window < grown := by
    simp only [grown]
    split_ifs
    · linarith
    · linarith
  refine ⟨?_, lt_grown⟩
  have le_window : 4096 ≤ window := accepted.minimum_le
  unfold next
  rw [apply_eq, clamp_exact, max_eq_right (le_window.trans lt_grown.le)]

/-- After any other delay the window stays. -/
theorem next_of_neither
    (accepted : Accepted window)
    (notLong : ¬measurement.Long)
    (notShort : ¬measurement.Short) :
    next measurement window = window := by
  unfold Measurement.Long at notLong
  have notVeryLong : ¬100 < measurement.lowest - measurement.base := by linarith
  have apply_eq : apply measurement window (adjustment measurement) = window := by
    rw [adjustment_exact, if_neg notVeryLong, if_neg notLong]
    cases known : measurement.lowestCongested with
    | none => rfl
    | some congested =>
        have notLess : ¬congested - measurement.base < 25 :=
          fun less => notShort ⟨congested, known, less⟩
        have notFarLess : ¬congested - measurement.base < 5 := by linarith
        simp only [if_neg notLess, if_neg notFarLess]
        rfl
  have le_window : 4096 ≤ window := accepted.minimum_le
  have window_le : window ≤ 4194304 := accepted.le_maximum
  unfold next
  rw [apply_eq, clamp_exact, max_eq_right le_window, min_eq_right window_le]

/-- The window shrinks exactly after a long delay, unless it is the smallest one. -/
theorem next_lt_iff
    (inOrder : measurement.InOrder)
    (accepted : Accepted window) :
    next measurement window < window ↔ measurement.Long ∧ 4096 < window := by
  by_cases long : measurement.Long
  · obtain ⟨next_eq, shrunk_lt⟩ := next_of_long inOrder accepted long
    rw [next_eq, max_lt_iff]
    exact ⟨fun less => ⟨long, less.1⟩, fun room => ⟨room.2, shrunk_lt⟩⟩
  · refine iff_of_false ?_ fun both => long both.1
    rw [not_lt]
    by_cases short : measurement.Short
    · obtain ⟨congested, known, short⟩ := short
      obtain ⟨next_eq, lt_grown⟩ := next_of_short inOrder accepted known short
      rw [next_eq]
      exact le_min accepted.le_maximum lt_grown.le
    · rw [next_of_neither accepted long short]

/-- The window grows exactly after a short delay of congested samples, unless it is the
largest one. -/
theorem lt_next_iff
    (inOrder : measurement.InOrder)
    (accepted : Accepted window) :
    window < next measurement window ↔
      measurement.Short ∧ window < 4194304 := by
  by_cases short : measurement.Short
  · obtain ⟨congested, known, less⟩ := short
    obtain ⟨next_eq, lt_grown⟩ := next_of_short inOrder accepted known less
    rw [next_eq, lt_min_iff]
    exact ⟨fun room => ⟨⟨congested, known, less⟩, room.1⟩,
      fun both => ⟨both.2, lt_grown⟩⟩
  · refine iff_of_false ?_ fun both => short both.1
    rw [not_lt]
    by_cases long : measurement.Long
    · obtain ⟨next_eq, shrunk_lt⟩ := next_of_long inOrder accepted long
      rw [next_eq]
      exact max_le accepted.minimum_le shrunk_lt.le
    · rw [next_of_neither accepted long short]

end Next

end Window

namespace Controller

/-! ## Round trips in order -/

/-- How long a round trip is; one that is not known counts as endless. -/
def length : Option ℚ → WithTop ℚ
  | none => ⊤
  | some value => value

@[simp] theorem length_some (value : ℚ) : length (some value) = value := rfl

/-- Lowering a round trip takes a minimum. -/
theorem length_lowered (known : Option ℚ) (value : ℚ) :
    length (some (lowered known value)) = min (length known) value := by
  cases known with
  | none => exact (min_eq_right le_top).symm
  | some known => rw [length_some, lowered, smaller_exact, WithTop.coe_min, length_some]

/-- The wire latency, the lowest round trip and the lowest congested one are in this
order, where the later ones may not be known yet. -/
structure Ascending (controller : Controller ℚ) : Prop where
  /-- No sample is below the wire latency. -/
  base_le : length controller.base ≤ length controller.lowest
  /-- The congested samples are among all samples. -/
  lowest_le : length controller.lowest ≤ length controller.lowestCongested

theorem ascending_fresh (config : Config ℚ) (now : ℚ) :
    (fresh config now).Ascending := ⟨le_rfl, le_rfl⟩

section Steps

variable {controller : Controller ℚ} {now : ℚ}

theorem Ascending.recordProgress
    (ascending : controller.Ascending)
    (total : ℚ) :
    (controller.recordProgress now total).state.Ascending := by
  have noted_eq := controller.noteActivity_eq now (controller.added total)
  rw [state_recordProgress]
  obtain ⟨_, reset⟩ | ⟨_, kept⟩ := controller.checked_cases now total
  · rw [reset]
    exact ⟨le_rfl, le_rfl⟩
  · rw [kept, noted_eq]
    exact ⟨ascending.base_le, ascending.lowest_le⟩

/-- An answer can lower the wire latency. -/
theorem Ascending.measured
    (ascending : controller.Ascending)
    (now : ℚ)
    (probe : Probe ℚ)
    (rest : List (Probe ℚ)) :
    (controller.measured now probe rest).Ascending := by
  refine ⟨?_, ascending.lowest_le⟩
  change length (some (lowered controller.base (roundTrip probe now))) ≤ _
  rw [length_lowered]
  exact (min_le_left _ _).trans ascending.base_le

/-- A sample lowers both lowest round trips in the same way, and it is not below the wire
latency. -/
theorem Ascending.addSample
    (ascending : controller.Ascending)
    {base : ℚ}
    (known : controller.base = some base)
    (roundTrip extra : ℚ)
    (congested : Bool) :
    (controller.addSample (controller.compensated base roundTrip extra)
      congested).Ascending := by
  have base_le : base ≤ controller.compensated base roundTrip extra := by
    unfold compensated
    rw [larger_exact]
    exact le_max_right _ _
  generalize controller.compensated base roundTrip extra = value at base_le
  have lowest_eq : length (controller.addSample value congested).lowest =
      min (length controller.lowest) value := length_lowered _ _
  constructor
  · change length controller.base ≤ _
    rw [lowest_eq]
    apply le_min ascending.base_le
    rw [known]
    exact WithTop.coe_le_coe.mpr base_le
  · rw [lowest_eq]
    unfold Controller.addSample
    dsimp only
    split_ifs
    · rw [length_lowered]
      exact min_le_min_right _ ascending.lowest_le
    · exact (min_le_left _ _).trans ascending.lowest_le

/-- An adjustment begins a new period, without any samples. -/
theorem Ascending.adjustWindow
    (ascending : controller.Ascending)
    (base lowest : ℚ) :
    (controller.adjustWindow now base lowest).state.Ascending := by
  obtain kept | ⟨measurement, adjusted⟩ :=
    controller.state_adjustWindow now base lowest
  · rwa [kept]
  · rw [adjusted]
    exact ⟨le_top, le_rfl⟩

theorem Ascending.probeAnswered (ascending : controller.Ascending) :
    (controller.probeAnswered now).state.Ascending := by
  cases pending : controller.pending with
  | nil =>
      rw [probeAnswered_of_stray pending]
      exact ascending
  | cons probe rest =>
      have measured := ascending.measured now probe rest
      rw [probeAnswered_of_pending pending]
      split
      · exact measured
      · exact (measured.addSample rfl _ _ _).adjustWindow _ _

theorem Ascending.perform
    (ascending : controller.Ascending)
    (action : Action ℚ) :
    (controller.perform now action).state.Ascending := by
  cases action with
  | recordProgress total => exact ascending.recordProgress total
  | probeSent => exact ⟨ascending.base_le, ascending.lowest_le⟩
  | probeAnswered => exact ascending.probeAnswered

theorem Ascending.after
    (ascending : controller.Ascending)
    (history : List (ℚ × Action ℚ)) :
    (controller.after history).Ascending := by
  induction history generalizing controller with
  | nil => exact ascending
  | cons step rest inductionHypothesis =>
      exact inductionHypothesis (ascending.perform step.2)

end Steps

/-! ## Reported adjustments -/

section Reports

variable {adjustment : Adjustment} {previous window : ℚ}
variable {measurement : Measurement ℚ}

/-- The adjustment that is reported is the one that is made. -/
theorem adjusted_adjustWindow
    {α : Type}
    [Arithmetic α]
    {controller : Controller α}
    {now base lowest : α}
    {adjustment : Adjustment}
    {previous window : α}
    {measurement : Measurement α}
    (reported : .adjusted adjustment previous window measurement ∈
      (controller.adjustWindow now base lowest).events) :
    measurement = ⟨base, lowest, controller.lowestCongested⟩ ∧
      previous = controller.window ∧
      window = Window.next measurement previous ∧
      (controller.adjustWindow now base lowest).state.window = window := by
  unfold adjustWindow at reported ⊢
  dsimp only at reported ⊢
  split at reported
  · contradiction
  · next enough =>
      rw [if_neg enough]
      split at reported
      · contradiction
      · unfold adjust at reported ⊢
        simp only [Outcome.events_reporting, List.mem_singleton,
          Notice.adjusted.injEq] at reported
        obtain ⟨_, rfl, rfl, rfl⟩ := reported
        exact ⟨rfl, rfl, rfl, rfl⟩

/-- What is measured at an adjustment is in order. -/
theorem Ascending.inOrder
    {controller : Controller ℚ}
    (ascending : controller.Ascending)
    (whole : controller.Whole)
    {base lowest : ℚ}
    (base_eq : controller.base = some base)
    (lowest_eq : controller.lowest = some lowest) :
    (⟨base, lowest, controller.lowestCongested⟩ : Measurement ℚ).InOrder := by
  obtain ⟨base_le, lowest_le⟩ := ascending
  rw [base_eq, lowest_eq] at base_le
  rw [lowest_eq] at lowest_le
  refine ⟨whole.base_pos base base_eq, WithTop.coe_le_coe.mp base_le, ?_⟩
  rintro congested known
  rw [show controller.lowestCongested = some congested from known] at lowest_le
  exact WithTop.coe_le_coe.mp lowest_le

/-- Only an answer is reported to adjust the window, by the rule, and what it measures is
in order. -/
theorem Ascending.adjusted_perform
    {controller : Controller ℚ}
    {now : ℚ}
    {action : Action ℚ}
    (ascending : controller.Ascending)
    (whole : controller.Whole)
    (reported : .adjusted adjustment previous window measurement ∈
      (controller.perform now action).events) :
    previous = controller.window ∧
      window = Window.next measurement previous ∧
      (controller.perform now action).state.window = window ∧
      measurement.InOrder := by
  cases action with
  | recordProgress total =>
      obtain ⟨_, reset⟩ | ⟨_, kept⟩ := controller.recordProgress_cases now total
      · simp [Controller.perform, reset] at reported
      · simp [Controller.perform, kept] at reported
  | probeSent =>
      simp only [Controller.perform, probeSent, Outcome.events_reporting] at reported
      split_ifs at reported
      · simp at reported
      · contradiction
  | probeAnswered =>
      change _ ∈ (controller.probeAnswered now).events at reported
      change _ ∧ _ ∧ (controller.probeAnswered now).state.window = window ∧ _
      cases pending : controller.pending with
      | nil =>
          rw [probeAnswered_of_stray pending] at reported
          simp at reported
      | cons probe rest =>
          have measured := ascending.measured now probe rest
          have sampled := measured.addSample rfl (roundTrip probe now) probe.extra
            probe.congested
          have measuredWhole := whole.measured now pending
          rw [probeAnswered_of_pending pending] at reported ⊢
          split at reported
          · contradiction
          · next fresh =>
              rw [if_neg fresh]
              obtain ⟨rfl, previous_eq, window_eq, state_eq⟩ :=
                adjusted_adjustWindow reported
              refine ⟨previous_eq, window_eq, state_eq, ?_⟩
              exact sampled.inOrder { measuredWhole with } rfl rfl

end Reports

/-- The delays decide the direction of the window in every run.  Take any controller
that was started, any reports of any positions at any clock readings, and an adjustment
that the next report tells.  It is the one that is made, and the wire latency, the lowest
round trip and the lowest congested one are in this order.  The window shrinks exactly if
the lowest round trip is more than 50 above the wire latency and the window is not the
smallest one; then it is scaled by their quotient if it is more than 100 above, and
takes a step down otherwise, but it stays within bounds.  It grows exactly if the lowest
congested round trip is known and less than 25 above the wire latency, and the window is
not the largest one; then it takes a double step if it is less than 5 above, and a step
otherwise.  In all other cases it stays. -/
theorem window_follows_delay
    (options : Options ℚ)
    (verifyByDefault : Bool)
    (start now : ℚ)
    (controller : Controller ℚ)
    (history : List (ℚ × Action ℚ))
    (action : Action ℚ)
    (adjustment : Adjustment)
    (previous window base lowest : ℚ)
    (lowestCongested : Option ℚ)
    (started : Controller.start options verifyByDefault start = .ok controller)
    (reported : .adjusted adjustment previous window ⟨base, lowest, lowestCongested⟩ ∈
      ((controller.after history).perform now action).events) :
    previous = (controller.after history).window ∧
      window = ((controller.after history).perform now action).state.window ∧
      base ≤ lowest ∧
      (∀ congested, lowestCongested = some congested → lowest ≤ congested) ∧
      (window < previous ↔ 50 < lowest - base ∧ 4096 < previous) ∧
      (50 < lowest - base →
        window = max 4096
          (if 100 < lowest - base then (⌊previous * base / lowest⌋ : ℚ)
            else previous - 4096)) ∧
      (previous < window ↔
        (∃ congested, lowestCongested = some congested ∧ congested - base < 25) ∧
          previous < 4194304) ∧
      (∀ congested, lowestCongested = some congested → congested - base < 25 →
        window = min 4194304
          (previous + if congested - base < 5 then 8192 else 4096)) ∧
      (¬(50 < lowest - base ∧ 4096 < previous) →
        ¬((∃ congested, lowestCongested = some congested ∧ congested - base < 25) ∧
          previous < 4194304) →
          window = previous) := by
  obtain ⟨config, rfl, initial, counting⟩ := start_ok started
  have ascending := (ascending_fresh config start).after history
  obtain ⟨whole, _⟩ := (whole_fresh initial start).after counting history
  obtain ⟨previous_eq, rfl, state_eq, inOrder⟩ :=
    ascending.adjusted_perform whole reported
  have accepted : Window.Accepted previous := previous_eq ▸ whole.window
  have shrinks_iff := Window.next_lt_iff inOrder accepted
  have grows_iff := Window.lt_next_iff inOrder accepted
  refine ⟨previous_eq, state_eq.symm, inOrder.base_le, inOrder.lowest_le, shrinks_iff,
    ?_, grows_iff, ?_, ?_⟩
  · intro long
    exact (Window.next_of_long inOrder accepted long).1
  · intro congested known short
    exact (Window.next_of_short inOrder accepted known short).1
  · intro notShrinks notGrows
    apply le_antisymm
    · exact not_lt.mp fun grows => notGrows (grows_iff.mp grows)
    · exact not_lt.mp fun shrinks => notShrinks (shrinks_iff.mp shrinks)

/-- Three round trips of the wire latency, and then three more that take longer, for the
bytes handed over in between. -/
def twoPeriods (bytes later : ℚ) : List (ℚ × Action ℚ) :=
  [(0, .probeSent), (0, .probeSent), (0, .probeSent),
    (20, .probeAnswered), (20, .probeAnswered), (20, .probeAnswered),
    (20, .recordProgress 0), (20, .recordProgress bytes),
    (20, .probeSent), (20, .probeSent), (20, .probeSent),
    (later, .probeAnswered), (later, .probeAnswered)]

/-- Whether a notice tells of an adjustment to a measurement. -/
def measures (measurement : Measurement ℚ) : Notice ℚ → Bool
  | .adjusted _ _ _ measured =>
    decide (measured.base = measurement.base ∧ measured.lowest = measurement.lowest ∧
      measured.lowestCongested = measurement.lowestCongested)
  | _ => false

/-- An adjustment among some notices can be found by its measurement. -/
theorem exists_adjusted_of_any
    {events : List (Notice ℚ)}
    {measurement : Measurement ℚ}
    (found : events.any (measures measurement) = true) :
    ∃ adjustment previous window,
      .adjusted adjustment previous window measurement ∈ events := by
  obtain ⟨notice, reported, measured⟩ := List.any_eq_true.mp found
  cases notice with
  | adjusted adjustment previous window other =>
      obtain ⟨base_eq, lowest_eq, congested_eq⟩ := of_decide_eq_true measured
      obtain rfl : other = measurement := by
        cases other
        cases measurement
        congr
      exact ⟨adjustment, previous, window, reported⟩
  | _ => contradiction

/-- A long delay of an empty window scales it down as far as it goes, and a short one of
a full window takes it up. -/
theorem window_follows_delay_twoPeriods :
    (∃ adjustment previous window,
      .adjusted adjustment previous window ⟨20, 180, none⟩ ∈
          ((exactDefault.after (twoPeriods 0 200)).perform 200 .probeAnswered).events ∧
        window < previous ∧ window = max 4096 (⌊previous * 20 / 180⌋ : ℚ)) ∧
      ∃ adjustment previous window,
        .adjusted adjustment previous window ⟨20, 22, some 22⟩ ∈
            ((exactDefault.after (twoPeriods 20000 66)).perform 66
              .probeAnswered).events ∧
          previous < window ∧ window = min 4194304 (previous + 8192) := by
  constructor
  · obtain ⟨adjustment, previous, window, reported⟩ :
        ∃ adjustment previous window,
          .adjusted adjustment previous window ⟨20, 180, none⟩ ∈
            ((exactDefault.after (twoPeriods 0 200)).perform 200
              .probeAnswered).events :=
      exists_adjusted_of_any (by decide +kernel)
    obtain ⟨previous_eq, _, _, _, shrinks_iff, shrunk, _⟩ := window_follows_delay
      ⟨none, none⟩ true 0 200 exactDefault (twoPeriods 0 200) .probeAnswered
      adjustment previous window 20 180 none start_exactDefault reported
    have room : 4096 < previous := by
      rw [previous_eq]
      decide +kernel
    refine ⟨adjustment, previous, window, reported, ?_, ?_⟩
    · exact shrinks_iff.mpr ⟨by norm_num, room⟩
    · rw [shrunk (by norm_num), if_pos (by norm_num)]
  · obtain ⟨adjustment, previous, window, reported⟩ :
        ∃ adjustment previous window,
          .adjusted adjustment previous window ⟨20, 22, some 22⟩ ∈
            ((exactDefault.after (twoPeriods 20000 66)).perform 66
              .probeAnswered).events :=
      exists_adjusted_of_any (by decide +kernel)
    obtain ⟨previous_eq, _, _, _, _, _, grows_iff, grown, _⟩ := window_follows_delay
      ⟨none, none⟩ true 0 66 exactDefault (twoPeriods 20000 66) .probeAnswered
      adjustment previous window 20 22 (some 22) start_exactDefault reported
    have room : previous < 4194304 := by
      rw [previous_eq]
      decide +kernel
    refine ⟨adjustment, previous, window, reported, ?_, ?_⟩
    · exact grows_iff.mpr ⟨⟨22, rfl, by norm_num⟩, room⟩
    · rw [grown 22 rfl (by norm_num), if_pos (by norm_num)]

end Controller
end Backpressure
