import Backpressure.Proofs.Controller.Range

/-!
# Samples of a measurement period

A period counts fewer samples than an adjustment needs, and it knows a lowest
round trip as soon as it counts one.  Together with the range of the single
numbers this says what a caller can rely on after any reports, as long as no
difference of clock readings overflows.
-/

namespace Backpressure
namespace Controller

open Binary64

/-! ## Periods -/

/-- The samples counted so far and the lowest round trips belong together. -/
structure Sampled (controller : Controller Binary64) : Prop where
  /-- Too few samples for an adjustment are counted, and none exactly as long
  as no lowest round trip is known. -/
  samples : ∃ count : ℕ, controller.samples = finite count ∧
    count < Window.samplesPerAdjustment ∧
    (count = 0 ↔ controller.lowest = none)
  /-- The congested samples are among all samples. -/
  lowestCongested : ∀ congested, controller.lowestCongested = some congested →
    ∃ lowest, controller.lowest = some lowest ∧ lowest ≤ congested

/-- A period that has just begun. -/
theorem sampled_of_none
    {controller : Controller Binary64}
    (samples : controller.samples = 0)
    (lowest : controller.lowest = none)
    (lowestCongested : controller.lowestCongested = none) :
    controller.Sampled where
  samples := ⟨0, by rw [samples, literal_zero, Nat.cast_zero],
    by norm_num [Window.samplesPerAdjustment], by simp [lowest]⟩
  lowestCongested := by
    intro congested known
    rw [lowestCongested] at known
    contradiction

/-- What does not touch the samples keeps them together. -/
theorem Sampled.of_eq
    {first second : Controller Binary64}
    (sampled : first.Sampled)
    (samples : second.samples = first.samples)
    (lowest : second.lowest = first.lowest)
    (lowestCongested : second.lowestCongested = first.lowestCongested) :
    second.Sampled where
  samples := by
    rw [samples, lowest]
    exact sampled.samples
  lowestCongested := by
    rw [lowest, lowestCongested]
    exact sampled.lowestCongested

section Steps

variable {readings : Set Binary64} {controller : Controller Binary64}
variable {now : Binary64}

theorem Sampled.recordProgress
    (sampled : controller.Sampled)
    (total : Binary64) :
    (controller.recordProgress now total).state.Sampled := by
  have noted_eq := controller.noteActivity_eq now (controller.added total)
  rw [state_recordProgress]
  obtain ⟨_, reset⟩ | ⟨_, kept⟩ := controller.checked_cases now total
  · apply sampled_of_none <;> rw [reset]
  · rw [kept, noted_eq]
    exact sampled.of_eq rfl rfl rfl

/-- An adjustment that does not fail either waits for more samples or begins a
new period. -/
theorem state_adjustWindow_of_faultless
    {base lowest : Binary64}
    (faultless : (controller.adjustWindow now base lowest).fault = none) :
    controller.samples < (Window.samplesPerAdjustment : Binary64) ∧
        (controller.adjustWindow now base lowest).state = controller ∨
      (controller.adjustWindow now base lowest).state.Sampled := by
  simp only [adjustWindow] at faultless ⊢
  split at faultless
  · next few => exact .inl ⟨few, by rw [if_pos few]; rfl⟩
  · next enough =>
      right
      rw [if_neg enough]
      split at faultless
      · contradiction
      · exact sampled_of_none rfl rfl rfl

/-- A lowered round trip is not above any of the two. -/
theorem exists_lowered
    {base known : Option Binary64}
    (above : AboveBase base known)
    (number : ℕ) :
    ∃ low : ℕ, lowered known (finite number) = finite low ∧ low ≤ number ∧
      ∀ other : ℕ, known = some (finite other) → low ≤ other := by
  cases known with
  | none => exact ⟨number, rfl, le_rfl, by simp⟩
  | some value =>
      obtain ⟨_, high, _, rfl, _⟩ := above value rfl
      refine ⟨min high number, ?_, min_le_right _ _, ?_⟩
      · rw [lowered, smaller_finite, Nat.cast_min]
      · intro other known_eq
        rw [Option.some.injEq, finite.injEq, Nat.cast_inj] at known_eq
        exact known_eq ▸ min_le_left _ _

/-- A sample lowers the lowest round trips in the same way. -/
theorem Sampled.addSample
    (sound : controller.Sound readings)
    (sampled : controller.Sampled)
    {number : ℕ}
    {congested : Bool}
    (few : (controller.addSample (finite number) congested).samples <
      (Window.samplesPerAdjustment : Binary64)) :
    (controller.addSample (finite number) congested).Sampled where
  samples := by
    obtain ⟨count, count_eq, count_lt, _⟩ := sampled.samples
    have next_eq : controller.samples + 1 = finite (count + 1 : ℕ) := by
      unfold Window.samplesPerAdjustment at count_lt
      rw [count_eq, literal_one, add_finite, ← Nat.cast_add_one,
        Binary64.round_natCast (by omega)]
    have required_eq : ((Window.samplesPerAdjustment : ℕ) : Binary64) =
        finite Window.samplesPerAdjustment :=
      natCast_eq (by norm_num [Window.samplesPerAdjustment])
    refine ⟨count + 1, next_eq, ?_, by simp [Controller.addSample]⟩
    change controller.samples + 1 < _ at few
    rw [next_eq, required_eq, finite_lt_finite] at few
    exact_mod_cast few
  lowestCongested := by
    intro value known
    obtain ⟨low, low_eq, low_le, low_le_known⟩ :=
      exists_lowered sound.lowest number
    refine ⟨_, rfl, ?_⟩
    rw [low_eq]
    -- what a congested sample was not below, the lowered round trip is not above
    have low_le_congested : ∀ other : ℕ,
        controller.lowestCongested = some (finite other) → low ≤ other := by
      intro other congested_eq
      obtain ⟨lowest, lowest_eq, lowest_le⟩ :=
        sampled.lowestCongested _ congested_eq
      obtain ⟨_, high, _, rfl, _⟩ := sound.lowest lowest lowest_eq
      rw [finite_le_finite, Nat.cast_le] at lowest_le
      exact (low_le_known high lowest_eq).trans lowest_le
    have known_eq : value = lowered controller.lowestCongested (finite number) ∨
        controller.lowestCongested = some value := by
      unfold Controller.addSample at known
      split at known
      · exact .inl (Option.some.inj known).symm
      · exact .inr known
    obtain rfl | known_eq := known_eq
    · cases congested_eq : controller.lowestCongested with
      | none => simpa [lowered] using low_le
      | some congested =>
          obtain ⟨_, high, _, rfl, _⟩ :=
            sound.lowestCongested congested congested_eq
          rw [lowered, smaller_finite, finite_le_finite, ← Nat.cast_min,
            Nat.cast_le]
          exact le_min (low_le_congested high congested_eq) low_le
    · obtain ⟨_, high, _, rfl, _⟩ := sound.lowestCongested value known_eq
      rw [finite_le_finite, Nat.cast_le]
      exact low_le_congested high known_eq

theorem Sampled.sample
    (spaced : FinitelySpaced readings)
    (sound : controller.Sound readings)
    (sampled : controller.Sampled)
    {base roundTrip : Binary64}
    {probe : Probe Binary64}
    (known : controller.base = some base)
    (roundTripMeasured : RoundTrip readings roundTrip)
    (probeSound : probe.Sound readings) :
    (controller.sample now base roundTrip probe).state.Sampled := by
  have faultless : (controller.sample now base roundTrip probe).fault = none :=
    (sound.sample spaced known roundTripMeasured probeSound).1
  obtain ⟨base, rfl, _⟩ := (sound.base base known).exists_natCast spaced
  obtain ⟨number, _, compensated_eq⟩ :=
    compensated_whole spaced sound known roundTripMeasured probeSound.extra
  unfold Controller.sample at faultless ⊢
  rw [compensated_eq] at faultless ⊢
  obtain ⟨few, kept⟩ | begun := state_adjustWindow_of_faultless faultless
  · rw [kept]
    exact sampled.addSample sound few
  · exact begun

theorem Sampled.probeAnswered
    (spaced : FinitelySpaced readings)
    (sound : controller.Sound readings)
    (now_mem : now ∈ readings)
    (sampled : controller.Sampled) :
    (controller.probeAnswered now).state.Sampled := by
  cases pending : controller.pending with
  | nil =>
      rw [probeAnswered_of_stray pending]
      exact sampled
  | cons probe rest =>
      obtain ⟨isRoundTrip, measured⟩ := sound.measured spaced now_mem pending
      have measuredSampled : (controller.measured now probe rest).Sampled :=
        sampled.of_eq rfl rfl rfl
      rw [probeAnswered_of_pending pending]
      split
      · exact measuredSampled
      · exact measuredSampled.sample spaced measured rfl isRoundTrip
          measured.answered

theorem Sampled.perform
    (spaced : FinitelySpaced readings)
    (sound : controller.Sound readings)
    (now_mem : now ∈ readings)
    (sampled : controller.Sampled)
    (action : Action Binary64) :
    (controller.perform now action).state.Sampled := by
  cases action with
  | recordProgress total => exact sampled.recordProgress total
  | probeSent => exact sampled.of_eq rfl rfl rfl
  | probeAnswered => exact sampled.probeAnswered spaced sound now_mem

/-- No history takes the numbers out of their range or the samples apart. -/
theorem Sound.after
    (spaced : FinitelySpaced readings)
    (sound : controller.Sound readings)
    (sampled : controller.Sampled)
    {history : List (Binary64 × Action Binary64)}
    (readings_mem : ∀ step ∈ history, step.1 ∈ readings) :
    (controller.after history).Sound readings ∧
      (controller.after history).Sampled := by
  refine sound.after_of_perform spaced ?_ sampled readings_mem
  exact fun sound now_mem sampled action =>
    sampled.perform spaced sound now_mem action

end Steps

/-! ## What a caller can rely on -/

/-- A measured round trip is a whole number of milliseconds, at least one. -/
def Milliseconds (value : Binary64) : Prop :=
  ∃ number : ℕ, value = finite number ∧ 1 ≤ number

/-- Every number of a controller is in its range. -/
structure InRange (controller : Controller Binary64) : Prop
    extends Sampled controller where
  /-- The window is a whole number of bytes within its bounds. -/
  window : Window.Ranged controller.window
  /-- The wire latency is a round trip, if it is known. -/
  base : ∀ base, controller.base = some base → Milliseconds base
  /-- So is the lowest round trip of all samples. -/
  lowest : ∀ lowest, controller.lowest = some lowest → Milliseconds lowest
  /-- So is the lowest one of the congested samples. -/
  congested : ∀ congested, controller.lowestCongested = some congested →
    Milliseconds congested
  /-- The surplus is a whole number of bytes. -/
  extra : ∃ bytes : ℕ, controller.extra = finite bytes
  /-- The position lies on the ring. -/
  position : OnRing controller.position
  /-- So does that of the probe answered last. -/
  answered : OnRing controller.answered.position
  /-- So do those of the pending probes. -/
  pending : ∀ probe ∈ controller.pending, OnRing probe.position

/-- What is not below the wire latency is a round trip. -/
theorem AboveBase.milliseconds
    {readings : Set Binary64}
    (spaced : FinitelySpaced readings)
    {base known : Option Binary64}
    (measured : ∀ value, base = some value → RoundTrip readings value)
    (above : AboveBase base known) :
    ∀ value, known = some value → Milliseconds value := by
  intro value known_eq
  obtain ⟨low, high, base_eq, rfl, low_le⟩ := above value known_eq
  obtain ⟨number, number_eq, number_pos⟩ :=
    (measured _ base_eq).exists_natCast spaced
  rw [finite.injEq, Nat.cast_inj] at number_eq
  exact ⟨high, rfl, by omega⟩

theorem Sound.inRange
    {readings : Set Binary64}
    {controller : Controller Binary64}
    (spaced : FinitelySpaced readings)
    (sound : controller.Sound readings)
    (sampled : controller.Sampled) :
    controller.InRange :=
  { sampled with
    window := sound.window
    base := fun base known => (sound.base base known).exists_natCast spaced
    lowest := sound.lowest.milliseconds spaced sound.base
    congested := sound.lowestCongested.milliseconds spaced sound.base
    extra := by
      obtain ⟨bytes, bytes_eq, _⟩ := sound.extra
      exact ⟨bytes, bytes_eq⟩
    position := sound.position
    answered := sound.answered.position
    pending := fun probe member => (sound.pending probe member).position }

/-- Whatever is reported, all numbers stay in their range.  Take any options
whose window is accepted and any reports, of any totals, at clock readings of
which no two are too far apart for a double; they may be fractional and run
backwards.  Then the controller can be started, and after the reports every
number of it is in its range. -/
theorem inRange_after
    (options : Options Binary64)
    (verifyByDefault : Bool)
    (start : Binary64)
    (history : List (Binary64 × Action Binary64))
    (accepted : Window.Accepted
      (options.initialWindow.getD (Window.initial : Binary64)))
    (spaced : FinitelySpaced
      {reading | reading ∈ start :: history.map Prod.fst}) :
    ∃ controller, Controller.start options verifyByDefault start =
        .ok controller ∧
      (controller.after history).InRange := by
  have started : Controller.start options verifyByDefault start = .ok _ :=
    if_pos accepted
  have start_mem : start ∈
      {reading | reading ∈ start :: history.map Prod.fst} :=
    List.mem_cons_self
  have readings_mem : ∀ step ∈ history,
      step.1 ∈ {reading | reading ∈ start :: history.map Prod.fst} :=
    fun step member => List.mem_cons_of_mem _ (List.mem_map_of_mem member)
  obtain ⟨sound, sampled⟩ := (sound_of_start start_mem started).after spaced
    (sampled_of_none rfl rfl rfl) readings_mem
  exact ⟨_, started, sound.inRange spaced sampled⟩

/-- Probes on a clock that jumps through most of the range of the doubles, in
both directions.  The last answer completes a measurement period. -/
def jumpingClock : List (Binary64 × Action Binary64) :=
  [(finite (5 / 2), .probeSent),
    (finite (2 ^ (1022 : ℤ)), .probeAnswered),
    (finite (-2 ^ (1023 : ℤ)), .recordProgress (finite 5000000000)),
    (finite (-2 ^ (1023 : ℤ)), .probeSent),
    (finite 7, .probeAnswered),
    (finite 7, .probeSent),
    (finite (25 / 2), .probeAnswered),
    (finite 13, .probeSent),
    (finite 20, .probeAnswered)]

theorem inRange_after_jumpingClock :
    ∃ controller, Controller.start ⟨none, none⟩ true (finite (5 / 2)) =
        .ok controller ∧
      (controller.after jumpingClock).InRange := by
  have accepted : Window.Accepted (Window.initial : Binary64) := by
    decide +kernel
  have spaced : FinitelySpaced {reading | reading ∈
      finite (5 / 2) :: jumpingClock.map Prod.fst} := by
    have close : ∀ earlier ∈ finite (5 / 2) :: jumpingClock.map Prod.fst,
        ∀ later ∈ finite (5 / 2) :: jumpingClock.map Prod.fst,
          later - earlier < infinity false := by
      decide +kernel
    exact close
  exact inRange_after ⟨none, none⟩ true (finite (5 / 2)) jumpingClock accepted
    spaced

end Controller
end Backpressure
