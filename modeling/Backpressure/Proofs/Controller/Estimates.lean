import Backpressure.Proofs.Controller.Divisors
import Backpressure.Proofs.Controller.Idle

/-!
# The range of the estimates

As long as no difference of clock readings overflows, every estimate is a whole
number in its range, whatever positions were reported and in whatever order.  The
bytes on their way are fewer than the ring is long, and the surplus only shrinks
after it was stored.  Only products of times and bytes can become too large for a
double, and then a time is infinite.
-/

namespace Backpressure
namespace Controller

open Binary64

section Single

variable {readings : Set Binary64} {controller : Controller Binary64}
variable {now : Binary64}

/-! ## Bytes on their way -/

/-- No position is a full turn ahead of another one. -/
theorem Sound.onRing_inFlight
    (sound : controller.Sound readings)
    (now : Binary64) :
    OnRing (controller.inFlight now) := by
  have nothing : OnRing 0 :=
    ⟨0, by simp, by norm_num [Arithmetic.ringSize]⟩
  have distance (later earlier : Binary64) :
      OnRing (controller.distance later earlier) := by
    unfold Controller.distance
    rw [sound.counting]
    exact onRing_distance later earlier
  unfold inFlight
  split
  · exact nothing
  · cases controller.base <;> cases controller.pending
    · exact nothing
    · exact distance _ _
    · exact distance _ _
    · exact distance _ _

/-! ## The surplus -/

/-- A stored surplus is a double. -/
theorem Sound.wholeDouble_surplusAfter
    (spaced : FinitelySpaced readings)
    (sound : controller.Sound readings)
    (now_mem : now ∈ readings)
    (stored : WholeDouble controller.extra)
    {added : Binary64}
    (addedOnRing : OnRing added) :
    WholeDouble (controller.surplusAfter now added) := by
  unfold Controller.surplusAfter
  cases known : controller.base with
  | none => exact stored
  | some base =>
      have drained := sound.drained_updatedAt spaced now_mem known
      have sum : WholeUpTo 100 (controller.extra + added) :=
        .add_small (by norm_num) (by norm_num) (by norm_num) sound.extra
          addedOnRing.wholeUpTo
      exact sum.wholeDouble_larger_zero_subtract (by norm_num) (by norm_num)
        drained

theorem Sound.wholeDouble_perform
    (spaced : FinitelySpaced readings)
    (sound : controller.Sound readings)
    (now_mem : now ∈ readings)
    (stored : WholeDouble controller.extra)
    (action : Action Binary64) :
    WholeDouble (controller.perform now action).state.extra := by
  cases action with
  | recordProgress total =>
      have checked := sound.checked now_mem total
      have addedOnRing : OnRing (controller.added total) := by
        unfold added distance
        rw [sound.counting]
        exact onRing_distance _ _
      change WholeDouble (controller.recordProgress now total).state.extra
      rw [state_recordProgress]
      apply checked.wholeDouble_surplusAfter spaced now_mem _ addedOnRing
      rwa [extra_checked]
  | probeSent => exact stored
  | probeAnswered =>
      change WholeDouble (controller.probeAnswered now).state.extra
      rwa [extra_probeAnswered]

theorem Sound.wholeDouble_after
    (spaced : FinitelySpaced readings)
    (sound : controller.Sound readings)
    (stored : WholeDouble controller.extra)
    {history : List (Binary64 × Action Binary64)}
    (readings_mem : ∀ step ∈ history, step.1 ∈ readings) :
    WholeDouble (controller.after history).extra := by
  refine (sound.after_of_perform
    (motive := fun current => WholeDouble current.extra) spaced ?_ stored
    readings_mem).2
  exact fun sound now_mem stored action =>
    sound.wholeDouble_perform spaced now_mem stored action

/-- What is left of the surplus is not above what was stored, since rounding does
not take it above a double. -/
theorem Sound.extraNow_le
    (spaced : FinitelySpaced readings)
    (sound : controller.Sound readings)
    (now_mem : now ∈ readings)
    (stored : WholeDouble controller.extra) :
    ∃ left extra : ℕ, controller.extraNow now = finite left ∧
      controller.extra = finite extra ∧ left ≤ extra := by
  obtain ⟨left, left_eq, _⟩ := sound.extraNow spaced now_mem
  obtain ⟨extra, extra_eq, kept⟩ := stored
  refine ⟨left, extra, left_eq, extra_eq, ?_⟩
  have nothing (vanishes : (0 : Binary64) = finite left) : left ≤ extra := by
    rw [literal_zero, finite.injEq] at vanishes
    have left_eq : left = 0 := by exact_mod_cast vanishes.symm
    omega
  unfold Controller.extraNow at left_eq
  cases known : controller.base with
  | none =>
      rw [known] at left_eq
      exact nothing left_eq
  | some base =>
      have drained := sound.drained_updatedAt spaced now_mem known
      have extraCount : Count controller.extra := .inr ⟨extra, extra_eq⟩
      simp only [known] at left_eq
      split at left_eq
      · exact nothing left_eq
      · next more =>
          obtain ⟨gone, gone_eq, gone_le⟩ :=
            extraCount.exists_natCast_of_not_le drained more
          rw [extra_eq, finite_le_finite] at gone_le
          obtain ⟨rest, rest_eq, rest_le⟩ :=
            round_subtract_le kept (Nat.cast_nonneg gone) gone_le
          rw [gone_eq, extra_eq, subtract_finite, rest_eq, finite.injEq]
            at left_eq
          rw [left_eq] at rest_le
          exact_mod_cast rest_le

/-! ## The time until the window has room -/

/-- The expected times that the estimates ask for: between two probes, or from a
probe to the last report. -/
def Expected (controller : Controller Binary64) (base interval : Binary64) :
    Prop :=
  ∃ origin ∈ controller.answered :: controller.pending,
    (∃ probe ∈ controller.pending,
        interval = controller.interval base origin probe) ∨
      interval = Buffering.interval controller.window base origin
        controller.updatedAt controller.extra

theorem Sound.exists_of_expected
    (sound : controller.Sound readings)
    {base interval : Binary64}
    (expected : controller.Expected base interval) :
    ∃ origin : Probe Binary64, origin.Sound readings ∧
      ∃ sentAt ∈ readings, ∃ extra, WholeUpTo 100 extra ∧
        interval =
          Buffering.interval controller.window base origin sentAt extra := by
  obtain ⟨origin, origin_mem, ends⟩ := expected
  have originSound : origin.Sound readings :=
    List.forall_mem_cons.mpr ⟨sound.answered, sound.pending⟩ origin origin_mem
  obtain ⟨probe, probe_mem, rfl⟩ | rfl := ends
  · have probeSound := sound.pending probe probe_mem
    exact ⟨origin, originSound, probe.sentAt, probeSound.sentAt, probe.extra,
      probeSound.extra, rfl⟩
  · exact ⟨origin, originSound, controller.updatedAt, sound.updatedAt,
      controller.extra, sound.extra, rfl⟩

/-- A position is ahead of another one by a byte at least. -/
theorem exists_distance_of_isAfter
    (counting : controller.config.counting = .wrapping)
    {first second : Binary64}
    (ahead : controller.isAfter first second = true) :
    ∃ bytes : ℕ, controller.distance first second = finite bytes ∧
      1 ≤ bytes := by
  unfold isAfter at ahead
  unfold distance
  rw [counting] at ahead ⊢
  obtain ⟨bytes, bytes_eq, _⟩ := onRing_distance first second
  simp only [Counting.isAfter, bytes_eq, bne, literal_zero, finite_beq_finite,
    Nat.cast_eq_zero, Bool.and_eq_true, Bool.not_eq_true',
    decide_eq_false_iff_not] at ahead
  exact ⟨bytes, bytes_eq, Nat.one_le_iff_ne_zero.mpr ahead.1⟩

theorem Sound.share_count
    (sound : controller.Sound readings)
    {span position previous : Binary64}
    (spanCount : Count span)
    (positionOnRing : OnRing position)
    (previousOnRing : OnRing previous)
    (ahead : controller.isAfter position controller.target = true)
    (behind : ¬controller.isAfter previous controller.target = true) :
    Count (controller.shareBeyondTarget span position previous) := by
  obtain ⟨part, part_eq, part_pos⟩ :=
    exists_distance_of_isAfter sound.counting ahead
  obtain ⟨bytes, bytes_eq, bytes_pos⟩ :=
    sound.exists_distance_across positionOnRing previousOnRing ahead behind
  unfold shareBeyondTarget
  rw [part_eq, bytes_eq]
  exact (spanCount.multiply_natCast part_pos).floor_divide bytes_pos

/-- However far apart the readings are, the time until the window has room is a
whole number, or an infinity that stands for one too large. -/
theorem Sound.untilUncongested_count
    (spaced : FinitelySpaced readings)
    (sound : controller.Sound readings)
    (now_mem : now ∈ readings)
    {wait : Binary64}
    (estimated : controller.untilUncongested now = some wait) :
    Count wait := by
  unfold untilUncongested at estimated
  split at estimated
  · rw [← Option.some.inj estimated]
    exact .zero
  · next behind =>
      obtain ⟨base, known, rfl⟩ := Option.map_eq_some_iff.mp estimated
      have arrival : Count
          (controller.arrival base controller.answered 0 controller.pending) := by
        apply sound.arrival_induction
          (interval_count spaced sound.window (sound.base base known))
        · exact Count.add
        · intro waited span position previous waitedCount spanCount
            positionOnRing previousOnRing ahead behind
          exact waitedCount.add (sound.share_count spanCount positionOnRing
            previousOnRing ahead behind)
        · exact sound.pending
        · exact sound.answered
        · exact behind
        · exact .zero
      obtain ⟨elapsed, elapsed_eq, _⟩ := spaced.elapsed sound.answeredAt now_mem
      simp only [elapsed_eq]
      split
      · exact .zero
      · next later =>
          exact arrival.subtract (arrival.natCast_le_of_not_lt later)

/-- The time is unknown exactly if the wire latency is and the last answer does
not make room. -/
theorem untilUncongested_eq_none_iff
    {α : Type}
    [Arithmetic α]
    (controller : Controller α)
    (now : α) :
    controller.untilUncongested now = none ↔
      controller.base = none ∧
        controller.isAfter controller.answered.position controller.target =
          false := by
  unfold untilUncongested
  split
  · next ahead => simp [ahead]
  · next behind => simp [behind]

end Single

/-! ## What a caller can rely on -/

/-- Every estimate at a clock reading is in its range. -/
structure EstimatesInRange (controller : Controller Binary64) (now : Binary64) :
    Prop where
  /-- Nothing is divided by zero. -/
  divisors : ∀ divisor ∈ controller.divisors now, 0 < divisor
  /-- So it does not matter what a quotient by zero is. -/
  quotients : ∀ quotient : Binary64 → Binary64 → Binary64,
    (∀ divisor, 0 < divisor → ∀ dividend,
      quotient dividend divisor = dividend / divisor) →
    @readout Binary64 (Arithmetic.dividing quotient) controller now =
      controller.readout now
  /-- The bytes on their way are a whole number, less than the ring is long. -/
  inFlight : OnRing (controller.inFlight now)
  /-- The surplus that is left is a whole number, not above what was stored. -/
  extraNow : ∃ left extra : ℕ, controller.extraNow now = finite left ∧
    controller.extra = finite extra ∧ left ≤ extra
  /-- The time until the window has room is unknown exactly if the wire latency is
  and the last answer does not make room. -/
  unknown : controller.untilUncongested now = none ↔
    controller.base = none ∧
      controller.isAfter controller.answered.position controller.target = false
  /-- If it is known, it is a whole number, or too large for a double. -/
  wait : ∀ wait, controller.untilUncongested now = some wait → Count wait
  /-- So is every time that is expected between two answers. -/
  interval : ∀ base interval, controller.base = some base →
    controller.Expected base interval → Count interval

theorem Sound.estimatesInRange
    {readings : Set Binary64}
    {controller : Controller Binary64}
    {now : Binary64}
    (spaced : FinitelySpaced readings)
    (sound : controller.Sound readings)
    (now_mem : now ∈ readings)
    (stored : WholeDouble controller.extra) :
    controller.EstimatesInRange now where
  divisors := sound.divisors_pos spaced now_mem
  quotients := by
    intro quotient usual
    apply readout_dividing
    intro divisor member
    exact usual divisor (sound.divisors_pos spaced now_mem divisor member)
  inFlight := sound.onRing_inFlight now
  extraNow := sound.extraNow_le spaced now_mem stored
  unknown := controller.untilUncongested_eq_none_iff now
  wait := fun wait estimated => sound.untilUncongested_count spaced now_mem estimated
  interval := by
    intro base interval known expected
    obtain ⟨origin, originSound, sentAt, sentAt_mem, extra, extraWhole, rfl⟩ :=
      sound.exists_of_expected expected
    exact interval_count spaced sound.window (sound.base base known) originSound
      sentAt_mem extraWhole

/-- Take any controller that was started and any reports, in whatever order their
positions are, at readings of which no two are too far apart for a double.  At any
such reading all its estimates are in their range.  If no two of the readings are
more than `2 ^ 800` milliseconds apart, no time is infinite. -/
theorem estimates_in_range
    (options : Options Binary64)
    (verifyByDefault : Bool)
    (start now : Binary64)
    (controller : Controller Binary64)
    (history : List (Binary64 × Action Binary64))
    (started : Controller.start options verifyByDefault start = .ok controller)
    (spaced : FinitelySpaced
      {reading | reading ∈ start :: history.map Prod.fst ++ [now]}) :
    let before := controller.after history
    before.EstimatesInRange now ∧
      (Spaced 800 {reading | reading ∈ start :: history.map Prod.fst ++ [now]} →
        (∀ wait, before.untilUncongested now = some wait →
          WholeUpTo 1000 wait) ∧
        ∀ base interval, before.base = some base →
          before.Expected base interval → WholeUpTo 901 interval) := by
  intro before
  obtain ⟨startedSound, readings_mem, sound⟩ := sound_of_run started spaced
  have now_mem : now ∈
      {reading | reading ∈ start :: history.map Prod.fst ++ [now]} :=
    List.mem_append_right _ (List.mem_singleton.mpr rfl)
  have stored : WholeDouble before.extra := by
    apply startedSound.wholeDouble_after spaced _ readings_mem
    obtain ⟨config, rfl, _⟩ := start_ok started
    exact .zero
  refine ⟨sound.estimatesInRange spaced now_mem stored, fun close => ?_⟩
  constructor
  · intro wait estimated
    exact untilUncongested_whole close sound now_mem estimated
  · intro base interval known expected
    obtain ⟨origin, originSound, sentAt, sentAt_mem, extra, extraWhole, rfl⟩ :=
      sound.exists_of_expected expected
    exact interval_whole close sound.window (sound.base base known) originSound
      sentAt_mem extraWhole

/-- Positions that run far ahead and back again, and probes in between. -/
def disorder : List (Binary64 × Action Binary64) :=
  [(0, .probeSent),
    (finite 20, .probeAnswered),
    (finite 20, .recordProgress (finite 3000000000)),
    (finite 20, .probeSent),
    (finite 30, .recordProgress (finite 1000)),
    (finite 30, .probeSent),
    (finite 30, .recordProgress (finite 36000))]

theorem estimates_in_range_afterDisorder :
    let before := byDefault.after disorder
    before.EstimatesInRange (finite 18) ∧
      before.inFlight (finite 18) = finite 36000 ∧
      before.extraNow (finite 18) = finite 4294978720 ∧
      before.untilUncongested (finite 18) = some (finite 5242900) ∧
      WholeUpTo 1000 (finite 5242900) := by
  intro before
  have spaced : Spaced 800
      {reading | reading ∈ 0 :: disorder.map Prod.fst ++ [finite 18]} := by
    have close : ∀ earlier ∈ 0 :: disorder.map Prod.fst ++ [finite 18],
        ∀ later ∈ 0 :: disorder.map Prod.fst ++ [finite 18],
          later - earlier ≤ finite (2 ^ (800 : ℤ)) := by
      decide +kernel
    exact close
  have waits : before.untilUncongested (finite 18) = some (finite 5242900) := by
    decide +kernel
  obtain ⟨inRange, close⟩ := estimates_in_range ⟨none, none⟩ true 0 (finite 18)
    byDefault disorder start_byDefault spaced.finitely
  exact ⟨inRange, by decide +kernel, by decide +kernel, waits,
    (close spaced).1 _ waits⟩

/-- A round trip that is almost too long for a double, and then some bytes. -/
def longRoundTrip : List (Binary64 × Action Binary64) :=
  [(0, .probeSent),
    (finite (2 ^ (1023 : ℤ)), .probeAnswered),
    (finite (2 ^ (1023 : ℤ)), .recordProgress (finite 20000))]

/-- Neither condition can be left out.  The product of a long round trip and a
window is infinite, and so is the time until the window has room.  Where the
readings are further apart than any double, a quotient of infinities leaves no
window and no estimate, and a distance that is divided by is zero. -/
theorem estimates_of_distant_readings :
    ((∀ step ∈ longRoundTrip, step.1.IsFinite) ∧
        (byDefault.after longRoundTrip).untilUncongested
          (finite (2 ^ (1023 : ℤ))) = some (infinity false)) ∧
      let controller := fresh ⟨(Window.initial : Binary64), true, .wrapping⟩
        (finite (-2 ^ (1023 : ℤ)))
      let before := controller.after farClock
      let now := finite (2 ^ (1023 : ℤ) + 2 ^ (1022 : ℤ))
      (∀ step ∈ farClock, step.1.IsFinite) ∧
        before.extraNow now = nan ∧
        before.untilUncongested now = some nan ∧
        ∃ divisor ∈ before.divisors now, divisor = 0 := by
  decide +kernel

end Controller
end Backpressure
