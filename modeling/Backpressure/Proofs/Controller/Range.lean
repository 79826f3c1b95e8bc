import Backpressure.Proofs.Window

/-!
# The range of a controller's numbers

As long as no difference of clock readings overflows, every number that a
controller keeps is whole and finite.  The measured round trips stay above the
wire latency, and no report fails.
-/

namespace Backpressure

open Binary64

/-! ## Clock readings -/

/-- No two of the clock readings are further apart than a power of two, in
milliseconds. -/
def Spaced (exponent : ℤ) (readings : Set Binary64) : Prop :=
  ∀ earlier ∈ readings, ∀ later ∈ readings,
    later - earlier ≤ finite (2 ^ exponent)

/-- No difference of two of the clock readings is too large for a double. -/
def FinitelySpaced (readings : Set Binary64) : Prop :=
  ∀ earlier ∈ readings, ∀ later ∈ readings,
    later - earlier < infinity false

/-- The span between two readings is whole, and it is not above their
difference. -/
theorem exists_elapsed
    {earlier later : Binary64}
    (close : later - earlier < infinity false) :
    ∃ number : ℕ, Time.elapsed earlier later = finite number ∧
      (number = 0 ∨
        ∃ value : ℚ, later - earlier = finite value ∧ (number : ℚ) ≤ value) := by
  unfold Time.elapsed
  rw [literal_zero]
  generalize later - earlier = span at close
  cases span with
  | nan => contradiction
  | infinity negative =>
      cases negative with
      | true => exact ⟨0, rfl, .inl rfl⟩
      | false => contradiction
  | negativeZero => exact ⟨0, rfl, .inl rfl⟩
  | finite value =>
      rw [floor_finite, larger_finite]
      obtain ⟨whole, whole_eq⟩ :=
        Int.eq_ofNat_of_zero_le (le_max_left 0 ⌊value⌋)
      have max_eq : max (0 : ℚ) ⌊value⌋ = whole := by exact_mod_cast whole_eq
      refine ⟨whole, by rw [max_eq], ?_⟩
      obtain nonpos | positive := le_or_gt ⌊value⌋ 0
      · left
        rw [max_eq_left nonpos] at whole_eq
        exact_mod_cast whole_eq.symm
      · right
        rw [max_eq_right positive.le] at whole_eq
        refine ⟨value, rfl, ?_⟩
        have floor_le := Int.floor_le value
        rw [whole_eq] at floor_le
        exact_mod_cast floor_le

section Spans

variable {exponent : ℤ} {readings : Set Binary64}

theorem Spaced.finitely (spaced : Spaced exponent readings) :
    FinitelySpaced readings := by
  intro earlier earlier_mem later later_mem
  have close := spaced earlier earlier_mem later later_mem
  generalize later - earlier = span at close ⊢
  cases span with
  | nan => exact absurd close (not_nan_le _)
  | infinity negative =>
      cases negative with
      | true => rfl
      | false => contradiction
  | finite value => rfl
  | negativeZero => rfl

/-- Spans between clock readings are whole. -/
theorem Spaced.elapsed
    (spaced : Spaced exponent readings)
    {earlier later : Binary64}
    (earlier_mem : earlier ∈ readings)
    (later_mem : later ∈ readings) :
    WholeUpTo exponent (Time.elapsed earlier later) := by
  have close := spaced earlier earlier_mem later later_mem
  obtain ⟨number, number_eq, rfl | ⟨value, value_eq, number_le⟩⟩ :=
    exists_elapsed (spaced.finitely earlier earlier_mem later later_mem)
  · exact ⟨0, number_eq, by simpa using (two_zpow_pos exponent).le⟩
  · rw [value_eq, finite_le_finite] at close
    exact ⟨number, number_eq, number_le.trans close⟩

/-- However far apart, they are finite. -/
theorem FinitelySpaced.elapsed
    (spaced : FinitelySpaced readings)
    {earlier later : Binary64}
    (earlier_mem : earlier ∈ readings)
    (later_mem : later ∈ readings) :
    WholeFinite (Time.elapsed earlier later) := by
  obtain ⟨number, number_eq, rfl | ⟨value, value_eq, number_le⟩⟩ :=
    exists_elapsed (spaced earlier earlier_mem later later_mem)
  · exact ⟨0, number_eq, by simpa using largest_nonneg⟩
  · exact ⟨number, number_eq,
      number_le.trans (le_largest_of_subtract value_eq)⟩

/-- A round trip that can be measured between clock readings.  It counts as a
millisecond at least. -/
def RoundTrip (readings : Set Binary64) (value : Binary64) : Prop :=
  ∃ earlier ∈ readings, ∃ later ∈ readings,
    value = Arithmetic.larger 1 (Time.elapsed earlier later)

theorem RoundTrip.wholeUpTo
    (spaced : Spaced exponent readings)
    (nonneg : 0 ≤ exponent)
    {value : Binary64}
    (roundTrip : RoundTrip readings value) :
    WholeUpTo exponent value := by
  obtain ⟨earlier, earlier_mem, later, later_mem, rfl⟩ := roundTrip
  refine .larger ⟨1, by simp, ?_⟩ (spaced.elapsed earlier_mem later_mem)
  rw [Nat.cast_one]
  exact one_le_zpow₀ (by norm_num) nonneg

theorem RoundTrip.wholeFinite
    (spaced : FinitelySpaced readings)
    {value : Binary64}
    (roundTrip : RoundTrip readings value) :
    WholeFinite value := by
  obtain ⟨earlier, earlier_mem, later, later_mem, rfl⟩ := roundTrip
  exact .larger .one (spaced.elapsed earlier_mem later_mem)

theorem RoundTrip.exists_natCast
    (spaced : FinitelySpaced readings)
    {value : Binary64}
    (roundTrip : RoundTrip readings value) :
    ∃ number : ℕ, value = finite number ∧ 1 ≤ number := by
  obtain ⟨earlier, earlier_mem, later, later_mem, rfl⟩ := roundTrip
  obtain ⟨number, number_eq, _⟩ := spaced.elapsed earlier_mem later_mem
  refine ⟨max 1 number, ?_, le_max_left _ _⟩
  rw [number_eq, literal_one, larger_finite, Nat.cast_max, Nat.cast_one]

end Spans

/-! ## Single numbers -/

/-- A position on the ring. -/
def OnRing (position : Binary64) : Prop :=
  ∃ number : ℕ, position = finite number ∧ number < Arithmetic.ringSize

theorem OnRing.wholeUpTo
    {position : Binary64}
    (onRing : OnRing position) :
    WholeUpTo 32 position := by
  obtain ⟨number, rfl, number_lt⟩ := onRing
  refine ⟨number, rfl, ?_⟩
  calc (number : ℚ) ≤ (Arithmetic.ringSize : ℕ) := by exact_mod_cast number_lt.le
    _ = 2 ^ (32 : ℤ) := by norm_num [Arithmetic.ringSize]

/-- Every residue lies on the ring. -/
theorem onRing_residue (value : Binary64) :
    OnRing (Arithmetic.residue value) := by
  obtain ⟨nonneg, bounded⟩ := Arithmetic.ringResidue_bounds value.toRat
  obtain ⟨number, number_eq⟩ := Int.eq_ofNat_of_zero_le nonneg
  refine ⟨number, ?_, ?_⟩
  · change finite ((Arithmetic.ringResidue value.toRat : ℤ) : ℚ) = _
    rw [number_eq, Int.cast_natCast]
  · unfold Arithmetic.ringSize
    omega

theorem onRing_distance (later earlier : Binary64) :
    OnRing (Counting.wrapping.distance later earlier) :=
  onRing_residue _

/-! ## Buffers -/

namespace Buffering

variable {readings : Set Binary64} {window base : Binary64}

theorem drained_count
    (spaced : FinitelySpaced readings)
    (windowRanged : Window.Ranged window)
    (baseMeasured : RoundTrip readings base)
    {earlier later : Binary64}
    (earlier_mem : earlier ∈ readings)
    (later_mem : later ∈ readings) :
    Count (drained window base (Time.elapsed earlier later)) := by
  obtain ⟨span, span_eq, _⟩ := spaced.elapsed earlier_mem later_mem
  obtain ⟨bytes, rfl, _⟩ := windowRanged
  obtain ⟨base, rfl, base_pos⟩ := baseMeasured.exists_natCast spaced
  unfold drained
  rw [span_eq]
  exact (Count.multiply span bytes).floor_divide base_pos

theorem delay_count
    (spaced : FinitelySpaced readings)
    (windowRanged : Window.Ranged window)
    (baseMeasured : RoundTrip readings base)
    {extra : Binary64}
    (extraWhole : WholeUpTo 100 extra) :
    Count (delay window base extra) := by
  obtain ⟨bytes, rfl, bytes_ge, _⟩ := windowRanged
  obtain ⟨base, rfl, _⟩ := baseMeasured.exists_natCast spaced
  obtain ⟨extra, rfl, _⟩ := extraWhole
  have bytes_pos : 1 ≤ bytes := by
    unfold Window.minimum at bytes_ge
    omega
  exact (Count.multiply extra base).floor_divide bytes_pos

end Buffering

/-- A probe that was sent at one of the readings. -/
structure Probe.Sound
    (readings : Set Binary64)
    (probe : Probe Binary64) : Prop where
  /-- It was sent at one of the readings. -/
  sentAt : probe.sentAt ∈ readings
  /-- Its position lies on the ring. -/
  position : OnRing probe.position
  /-- Its surplus is a whole number of bytes. -/
  extra : WholeUpTo 100 probe.extra

namespace Controller

theorem distance_finite
    {controller : Controller Binary64}
    (counting : controller.config.counting = .wrapping)
    {first second : ℕ}
    (first_lt : first < Arithmetic.ringSize)
    (second_lt : second < Arithmetic.ringSize) :
    controller.distance (finite first) (finite second) =
      finite ((first + Arithmetic.ringSize - second) %
        Arithmetic.ringSize : ℕ) := by
  unfold distance
  rw [counting]
  exact residue_subtract first_lt second_lt

/-! ## The range of all numbers -/

/-- A lowest round trip, if there is one, is not below the wire latency. -/
def AboveBase (base known : Option Binary64) : Prop :=
  ∀ value, known = some value →
    ∃ low high : ℕ, base = some (finite low) ∧ value = finite high ∧ low ≤ high

/-- Every number of a controller is within its range. -/
structure Sound
    (readings : Set Binary64)
    (controller : Controller Binary64) : Prop where
  /-- Positions are counted on the ring. -/
  counting : controller.config.counting = .wrapping
  /-- The window to start with is within bounds. -/
  initialWindow : Window.Ranged controller.config.initialWindow
  /-- The window is within bounds. -/
  window : Window.Ranged controller.window
  /-- The position lies on the ring. -/
  position : OnRing controller.position
  /-- The surplus is a whole number of bytes. -/
  extra : WholeUpTo 100 controller.extra
  /-- The wire latency, if known, is a measured round trip. -/
  base : ∀ base, controller.base = some base → RoundTrip readings base
  /-- The lowest round trip is not below it. -/
  lowest : AboveBase controller.base controller.lowest
  /-- Neither is the lowest one of the congested samples. -/
  lowestCongested : AboveBase controller.base controller.lowestCongested
  /-- The position was reported at one of the readings. -/
  updatedAt : controller.updatedAt ∈ readings
  /-- There was something to send at one of the readings. -/
  busyAt : controller.busyAt ∈ readings
  /-- The last answer arrived at one of the readings. -/
  answeredAt : controller.answeredAt ∈ readings
  /-- The probe answered last is sound. -/
  answered : controller.answered.Sound readings
  /-- So are the pending ones. -/
  pending : ∀ probe ∈ controller.pending, probe.Sound readings

theorem aboveBase_none (base : Option Binary64) : AboveBase base none := by
  intro value known
  contradiction

/-- Options lead to a sound controller. -/
theorem sound_of_start
    {readings : Set Binary64}
    {options : Options Binary64}
    {verifyByDefault : Bool}
    {now : Binary64}
    {controller : Controller Binary64}
    (now_mem : now ∈ readings)
    (started : start options verifyByDefault now = .ok controller) :
    controller.Sound readings := by
  obtain ⟨config, rfl, accepted, counting⟩ := start_ok started
  have zeroOnRing : OnRing 0 :=
    ⟨0, by simp, by norm_num [Arithmetic.ringSize]⟩
  exact {
    counting := counting
    initialWindow := accepted.ranged
    window := accepted.ranged
    position := zeroOnRing
    extra := .zero
    base := fun base known => by contradiction
    lowest := aboveBase_none _
    lowestCongested := aboveBase_none _
    updatedAt := now_mem
    busyAt := now_mem
    answeredAt := now_mem
    answered := ⟨now_mem, zeroOnRing, .zero⟩
    pending := fun probe member => by contradiction }

section Steps

variable {readings : Set Binary64} {controller : Controller Binary64}
variable {now : Binary64}

/-! ### Reports of progress -/

/-- An idle check keeps all numbers within their range. -/
theorem Sound.checked
    (sound : controller.Sound readings)
    (now_mem : now ∈ readings)
    (total : Binary64) :
    (controller.checked now total).Sound readings := by
  have noted : (controller.noteActivity now (controller.added total)).Sound
      readings := by
    unfold noteActivity
    split
    · exact { sound with busyAt := now_mem }
    · exact sound
  obtain ⟨_, reset⟩ | ⟨_, kept⟩ := controller.checked_cases now total
  · rw [reset]
    exact { noted with
      window := sound.initialWindow.smaller sound.window
      base := fun base known => by contradiction
      lowest := aboveBase_none _
      lowestCongested := aboveBase_none _ }
  · rw [kept]
    exact noted

theorem Sound.drained_updatedAt
    (spaced : FinitelySpaced readings)
    (sound : controller.Sound readings)
    (now_mem : now ∈ readings)
    {base : Binary64}
    (known : controller.base = some base) :
    Count (Buffering.drained controller.window base
      (Time.elapsed controller.updatedAt now)) :=
  Buffering.drained_count spaced sound.window (sound.base base known)
    sound.updatedAt now_mem

/-- The surplus stays whole, and its bound absorbs every single addition. -/
theorem Sound.surplusAfter
    (spaced : FinitelySpaced readings)
    (sound : controller.Sound readings)
    (now_mem : now ∈ readings)
    {added : Binary64}
    (addedOnRing : OnRing added) :
    WholeUpTo 100 (controller.surplusAfter now added) := by
  unfold Controller.surplusAfter
  cases known : controller.base with
  | none => exact sound.extra
  | some base =>
      have drained := sound.drained_updatedAt spaced now_mem known
      have sum : WholeUpTo 100 (controller.extra + added) :=
        .add_small (by norm_num) (by norm_num) (by norm_num) sound.extra
          addedOnRing.wholeUpTo
      exact .larger_zero_subtract (by norm_num) (by norm_num) sum drained

theorem Sound.recordProgress
    (spaced : FinitelySpaced readings)
    (sound : controller.Sound readings)
    (now_mem : now ∈ readings)
    (total : Binary64) :
    (controller.recordProgress now total).state.Sound readings := by
  have checked := sound.checked now_mem total
  have addedOnRing : OnRing (controller.added total) := by
    unfold added distance
    rw [sound.counting]
    exact onRing_distance _ _
  rw [state_recordProgress]
  exact { checked with
    position := by
      rw [sound.counting]
      exact onRing_residue total
    extra := checked.surplusAfter spaced now_mem addedOnRing
    updatedAt := now_mem }

/-! ### Probes -/

theorem Sound.extraNow
    (spaced : FinitelySpaced readings)
    (sound : controller.Sound readings)
    (now_mem : now ∈ readings) :
    WholeUpTo 100 (controller.extraNow now) := by
  unfold Controller.extraNow
  cases known : controller.base with
  | none => exact .zero
  | some base =>
      have drained := sound.drained_updatedAt spaced now_mem known
      simp only
      split
      · exact .zero
      · next more =>
          exact .subtract (by norm_num) (by norm_num) sound.extra drained
            (sound.extra.le_of_not_le drained more)

theorem Sound.probeSent
    (spaced : FinitelySpaced readings)
    (sound : controller.Sound readings)
    (now_mem : now ∈ readings) :
    (controller.probeSent now).state.Sound readings := by
  have probe : (controller.probeNow now).Sound readings :=
    ⟨now_mem, sound.position, sound.extraNow spaced now_mem⟩
  rw [state_probeSent]
  exact { sound with
    pending := by
      intro later member
      obtain early | last := List.mem_append.mp member
      · exact sound.pending later early
      · rw [List.mem_singleton.mp last]
        exact probe }

/-! ### Answers -/

/-- The lower of two round trips is one of them. -/
theorem roundTrip_lowered
    (spaced : FinitelySpaced readings)
    {known : Option Binary64}
    {value : Binary64}
    (knownMeasured : ∀ other, known = some other → RoundTrip readings other)
    (valueMeasured : RoundTrip readings value) :
    RoundTrip readings (lowered known value) := by
  cases known with
  | none => exact valueMeasured
  | some other =>
      have otherMeasured := knownMeasured other rfl
      obtain ⟨one, one_eq, _⟩ := otherMeasured.exists_natCast spaced
      obtain ⟨two, two_eq, _⟩ := valueMeasured.exists_natCast spaced
      rw [lowered, one_eq, two_eq, smaller_finite]
      obtain first | second := min_choice (one : ℚ) two
      · rw [first, ← one_eq]
        exact otherMeasured
      · rw [second, ← two_eq]
        exact valueMeasured

/-- A lower wire latency is still below the lowest round trips. -/
theorem AboveBase.lowered
    {base known : Option Binary64}
    (above : AboveBase base known)
    (number : ℕ) :
    AboveBase (some (Controller.lowered base (finite number))) known := by
  intro lowest known_eq
  obtain ⟨low, high, rfl, rfl, low_le⟩ := above lowest known_eq
  refine ⟨min low number, high, ?_, rfl, (min_le_left _ _).trans low_le⟩
  rw [Controller.lowered, smaller_finite, Nat.cast_min]

/-- A round trip above the wire latency can become the lowest one. -/
theorem AboveBase.lowered_known
    {low high : ℕ}
    {known : Option Binary64}
    (above : AboveBase (some (finite low)) known)
    (low_le : low ≤ high) :
    AboveBase (some (finite low)) (some (Controller.lowered known (finite high))) := by
  intro lowest known_eq
  rw [← Option.some.inj known_eq]
  cases known with
  | none => exact ⟨low, high, rfl, rfl, low_le⟩
  | some other =>
      obtain ⟨_, second, base_eq, rfl, second_ge⟩ := above other rfl
      rw [Option.some.injEq, finite.injEq, Nat.cast_inj] at base_eq
      subst base_eq
      refine ⟨low, min second high, rfl, ?_, le_min second_ge low_le⟩
      rw [Controller.lowered, smaller_finite, Nat.cast_min]

/-- The compensated round trip of a sample is not below the wire latency. -/
theorem compensated_whole
    (spaced : FinitelySpaced readings)
    {base : ℕ}
    {roundTrip extra : Binary64}
    (sound : controller.Sound readings)
    (known : controller.base = some (finite base))
    (roundTripMeasured : RoundTrip readings roundTrip)
    (extraWhole : WholeUpTo 100 extra) :
    ∃ number : ℕ, base ≤ number ∧
      controller.compensated (finite base) roundTrip extra = finite number := by
  have delay :=
    Buffering.delay_count spaced sound.window (sound.base _ known) extraWhole
  have roundTripWhole := roundTripMeasured.wholeFinite spaced
  have rest : WholeFinite
      (if Buffering.delay controller.window (finite base) extra < roundTrip
        then roundTrip - Buffering.delay controller.window (finite base) extra
        else 1) := by
    split
    · next less => exact roundTripWhole.subtract delay (le_of_below less)
    · exact .one
  obtain ⟨number, number_eq, _⟩ := rest
  refine ⟨max number base, le_max_right _ _, ?_⟩
  simp only [compensated]
  rw [number_eq, larger_finite, Nat.cast_max]

/-- The measured round trips keep the order that is checked. -/
theorem violation_eq_none
    {base lowest : ℕ}
    (known : controller.base = some (finite base))
    (ordered : base ≤ lowest)
    (congested : AboveBase controller.base controller.lowestCongested) :
    controller.violation (finite base) (finite lowest) = none := by
  have base_le : finite (base : ℚ) ≤ finite (lowest : ℚ) := by
    rw [finite_le_finite]
    exact_mod_cast ordered
  simp only [violation, if_pos base_le]
  cases lowest_eq : controller.lowestCongested with
  | none => rfl
  | some value =>
      obtain ⟨low, high, base_eq, rfl, low_le⟩ := congested value lowest_eq
      rw [known, Option.some.injEq, finite.injEq] at base_eq
      have congested_le : finite (base : ℚ) ≤ finite (high : ℚ) := by
        rw [base_eq, finite_le_finite]
        exact_mod_cast low_le
      simp only [if_pos congested_le]

/-- An adjustment to sound measurements does not fail. -/
theorem Sound.adjustWindow
    (spaced : FinitelySpaced readings)
    {base : ℕ}
    {lowest : Binary64}
    (sound : controller.Sound readings)
    (known : controller.base = some (finite base))
    (lowest_eq : controller.lowest = some lowest) :
    (controller.adjustWindow now (finite base) lowest).fault = none ∧
      (controller.adjustWindow now (finite base) lowest).state.Sound
        readings := by
  obtain ⟨low, high, base_eq, rfl, low_le⟩ := sound.lowest lowest lowest_eq
  rw [known, Option.some.injEq, finite.injEq, Nat.cast_inj] at base_eq
  subst base_eq
  have base_pos : 1 ≤ base := by
    obtain ⟨number, number_eq, number_pos⟩ :=
      (sound.base _ known).exists_natCast spaced
    rw [finite.injEq, Nat.cast_inj] at number_eq
    rwa [number_eq]
  have number : Arithmetic.floor
      (controller.window * finite base / finite high) ≠ nan := by
    obtain ⟨bytes, bytes_eq, _⟩ := sound.window
    rw [bytes_eq]
    exact ((Count.multiply bytes base).floor_divide
      (base_pos.trans low_le)).ne_nan
  have ordered := violation_eq_none known low_le sound.lowestCongested
  have adjusted :
      { controller with
        window := Window.next
          ⟨finite base, finite high, controller.lowestCongested⟩
          controller.window
        samples := 0
        adjustedAt := now
        lowest := none
        lowestCongested := none }.Sound readings :=
    { sound with
      window := sound.window.next number
      lowest := aboveBase_none _
      lowestCongested := aboveBase_none _ }
  unfold Controller.adjustWindow
  rw [ordered, ite_self]
  split
  · exact ⟨rfl, sound⟩
  · exact ⟨rfl, adjusted⟩

theorem Sound.sample
    (spaced : FinitelySpaced readings)
    {base roundTrip : Binary64}
    {probe : Probe Binary64}
    (sound : controller.Sound readings)
    (known : controller.base = some base)
    (roundTripMeasured : RoundTrip readings roundTrip)
    (probeSound : probe.Sound readings) :
    (controller.sample now base roundTrip probe).fault = none ∧
      (controller.sample now base roundTrip probe).state.Sound readings := by
  obtain ⟨base, rfl, _⟩ := (sound.base base known).exists_natCast spaced
  obtain ⟨number, base_le, compensated_eq⟩ :=
    compensated_whole spaced sound known roundTripMeasured probeSound.extra
  have lowest := sound.lowest
  have lowestCongested := sound.lowestCongested
  rw [known] at lowest lowestCongested
  have sampled : (controller.addSample (finite number)
      probe.congested).Sound readings :=
    { sound with
      lowest := by
        change AboveBase controller.base _
        rw [known]
        exact lowest.lowered_known base_le
      lowestCongested := by
        change AboveBase controller.base
          (if probe.congested
            then some (lowered controller.lowestCongested (finite number))
            else controller.lowestCongested)
        rw [known]
        split
        · exact lowestCongested.lowered_known base_le
        · exact lowestCongested }
  unfold Controller.sample
  rw [compensated_eq]
  exact sampled.adjustWindow spaced known rfl

/-- The answer to a pending probe measures a round trip. -/
theorem Sound.measured
    (spaced : FinitelySpaced readings)
    (sound : controller.Sound readings)
    (now_mem : now ∈ readings)
    {probe : Probe Binary64}
    {rest : List (Probe Binary64)}
    (pending : controller.pending = probe :: rest) :
    RoundTrip readings (roundTrip probe now) ∧
      (controller.measured now probe rest).Sound readings := by
  have probeSound : probe.Sound readings :=
    sound.pending probe (pending ▸ List.mem_cons_self)
  have isRoundTrip : RoundTrip readings (roundTrip probe now) :=
    ⟨probe.sentAt, probeSound.sentAt, now, now_mem, rfl⟩
  obtain ⟨number, number_eq, _⟩ := isRoundTrip.exists_natCast spaced
  refine ⟨isRoundTrip, { sound with
    base := ?_
    lowest := ?_
    lowestCongested := ?_
    answeredAt := now_mem
    answered := probeSound
    pending := fun later member =>
      sound.pending later (pending ▸ List.mem_cons_of_mem _ member) }⟩
  · intro base known
    rw [← Option.some.inj known]
    exact roundTrip_lowered spaced sound.base isRoundTrip
  · rw [Controller.measured, number_eq]
    exact sound.lowest.lowered number
  · rw [Controller.measured, number_eq]
    exact sound.lowestCongested.lowered number

/-- An answer to a sound controller does not fail. -/
theorem Sound.probeAnswered
    (spaced : FinitelySpaced readings)
    (sound : controller.Sound readings)
    (now_mem : now ∈ readings) :
    (controller.probeAnswered now).fault = none ∧
      (controller.probeAnswered now).state.Sound readings := by
  cases pending : controller.pending with
  | nil =>
      rw [probeAnswered_of_stray pending]
      exact ⟨rfl, sound⟩
  | cons probe rest =>
      obtain ⟨isRoundTrip, measured⟩ := sound.measured spaced now_mem pending
      rw [probeAnswered_of_pending pending]
      split
      · exact ⟨rfl, measured⟩
      · exact measured.sample spaced rfl isRoundTrip measured.answered

/-- No report takes a number out of its range. -/
theorem Sound.perform
    (spaced : FinitelySpaced readings)
    (sound : controller.Sound readings)
    (now_mem : now ∈ readings)
    (action : Action Binary64) :
    (controller.perform now action).fault = none ∧
      (controller.perform now action).state.Sound readings := by
  cases action with
  | recordProgress total =>
      exact ⟨fault_recordProgress _ _ _,
        sound.recordProgress spaced now_mem total⟩
  | probeSent => exact ⟨rfl, sound.probeSent spaced now_mem⟩
  | probeAnswered => exact sound.probeAnswered spaced now_mem

/-- What every report keeps true of a sound controller is true after any history. -/
theorem Sound.after_of_perform
    {motive : Controller Binary64 → Prop}
    (spaced : FinitelySpaced readings)
    (kept : ∀ {controller : Controller Binary64} {now : Binary64},
      controller.Sound readings → now ∈ readings → motive controller →
      ∀ action, motive (controller.perform now action).state)
    (sound : controller.Sound readings)
    (start : motive controller)
    {history : List (Binary64 × Action Binary64)}
    (readings_mem : ∀ step ∈ history, step.1 ∈ readings) :
    (controller.after history).Sound readings ∧
      motive (controller.after history) := by
  induction history generalizing controller with
  | nil => exact ⟨sound, start⟩
  | cons step rest inductionHypothesis =>
      obtain ⟨now_mem, later_mem⟩ := List.forall_mem_cons.mp readings_mem
      rw [after_cons]
      apply inductionHypothesis
      · exact (sound.perform spaced now_mem step.2).2
      · exact kept sound now_mem start step.2
      · exact later_mem

end Steps

end Controller
end Backpressure
