import Backpressure.Proofs.Controller.Range

/-!
# Bursts of reports at one clock reading

While a controller takes several reports at one clock reading, only the first of
them can find it idle.  The later ones leave the window, the wire latency and the
probes alone, and every byte that they report is on its way.
-/

namespace Backpressure
namespace Controller

open Binary64

variable {readings : Set Binary64} {controller : Controller Binary64}
variable {now : Binary64}

/-! ## Idle checks -/

/-- A further idle check at the reading changes neither the window nor the wire
latency. -/
def Calm (now : Binary64) (controller : Controller Binary64) : Prop :=
  ¬controller.idleTimeout < Time.elapsed controller.busyAt now ∨
    (controller.base = none ∧
      Arithmetic.smaller controller.config.initialWindow controller.window =
        controller.window)

/-- No time passes between a reading and itself. -/
theorem elapsed_self
    (spaced : FinitelySpaced readings)
    (now_mem : now ∈ readings) :
    Time.elapsed now now = finite 0 := by
  have close := spaced now now_mem now now_mem
  unfold Time.elapsed
  cases now with
  | nan => contradiction
  | infinity negative => cases negative <;> contradiction
  | negativeZero =>
      change Arithmetic.larger 0 (Arithmetic.floor (Binary64.round (0 + 0))) = finite 0
      rw [add_zero, Binary64.round_zero, floor_finite, Int.floor_zero, Int.cast_zero,
        literal_zero, larger_finite, max_self]
  | finite value =>
      rw [subtract_finite, sub_self, Binary64.round_zero, floor_finite, Int.floor_zero,
        Int.cast_zero, literal_zero, larger_finite, max_self]

/-- The idle timeout is positive. -/
theorem Sound.not_idleTimeout_lt_zero
    (spaced : FinitelySpaced readings)
    (sound : controller.Sound readings) :
    ¬controller.idleTimeout < finite 0 := by
  have floor_eq : ((idleTimeoutFloor : ℕ) : Binary64) =
      finite idleTimeoutFloor :=
    natCast_eq (by norm_num [idleTimeoutFloor])
  have floor_nonneg : (0 : ℚ) ≤ idleTimeoutFloor := Nat.cast_nonneg _
  unfold idleTimeout
  cases known : controller.base with
  | none =>
      simp only [floor_eq, finite_lt_finite, not_lt]
      exact floor_nonneg
  | some base =>
      obtain ⟨base, rfl, _⟩ := (sound.base base known).exists_natCast spaced
      have double : Count (finite base * 2) := by
        rw [literal_two]
        exact Count.multiply base 2
      simp only [floor_eq]
      obtain endless | ⟨number, number_eq⟩ := double
      · rw [endless]
        exact Bool.false_ne_true
      · rw [number_eq, larger_finite, finite_lt_finite, not_lt]
        exact le_max_of_le_right floor_nonneg

/-- After any report a further idle check at its reading changes nothing. -/
theorem Sound.calm_recordProgress
    (sound : controller.Sound readings)
    (total : Binary64) :
    (controller.recordProgress now total).state.Calm now := by
  have noted_eq := controller.noteActivity_eq now (controller.added total)
  rw [state_recordProgress]
  obtain ⟨_, reset⟩ | ⟨busy, kept⟩ := controller.checked_cases now total
  · right
    rw [reset, noted_eq]
    obtain ⟨initial, initial_eq, _⟩ := sound.initialWindow
    obtain ⟨window, window_eq, _⟩ := sound.window
    refine ⟨rfl, ?_⟩
    dsimp only
    rw [initial_eq, window_eq, smaller_finite, smaller_finite, ← min_assoc,
      min_self]
  · left
    rw [kept]
    exact busy

/-- In a calm controller a report leaves what is learned of the path. -/
theorem Sound.recordProgress_of_calm
    (spaced : FinitelySpaced readings)
    (sound : controller.Sound readings)
    (now_mem : now ∈ readings)
    (calm : controller.Calm now)
    (total : Binary64) :
    (controller.recordProgress now total).state.window = controller.window ∧
      (controller.recordProgress now total).state.base = controller.base := by
  have noted_eq := controller.noteActivity_eq now (controller.added total)
  rw [state_recordProgress]
  obtain ⟨idle, reset⟩ | ⟨_, kept⟩ := controller.checked_cases now total
  · -- an idle controller was reset at this reading before
    have settled : controller.base = none ∧
        Arithmetic.smaller controller.config.initialWindow controller.window =
          controller.window := by
      obtain busy | settled := calm
      · exfalso
        unfold noteActivity at idle
        split at idle
        · rw [elapsed_self spaced now_mem] at idle
          exact sound.not_idleTimeout_lt_zero spaced idle
        · exact busy idle
      · exact settled
    rw [reset]
    exact ⟨settled.2, settled.1.symm⟩
  · rw [kept, noted_eq]
    exact ⟨rfl, rfl⟩

/-! ## Ways on the ring -/

/-- The way to a position grows with the position as long as it does not go all
around the ring. -/
theorem way_add
    {position origin sent : ℕ}
    (origin_lt : origin < Arithmetic.ringSize)
    (room : (position + Arithmetic.ringSize - origin) % Arithmetic.ringSize +
      sent < Arithmetic.ringSize) :
    ((position + sent) % Arithmetic.ringSize + Arithmetic.ringSize - origin) %
        Arithmetic.ringSize =
      (position + Arithmetic.ringSize - origin) % Arithmetic.ringSize +
        sent := by
  unfold Arithmetic.ringSize at *
  omega

/-! ## Bursts -/

/-- The first controller has become the second one by reports at one reading
that added so many bytes. -/
structure Burst
    (readings : Set Binary64)
    (now : Binary64)
    (start : Controller Binary64)
    (sent : ℕ)
    (controller : Controller Binary64) : Prop where
  /-- Its numbers are within their range. -/
  sound : controller.Sound readings
  /-- A further idle check changes nothing. -/
  calm : controller.Calm now
  /-- The last report was at the reading. -/
  updatedAt : controller.updatedAt = now
  /-- The configuration is the same. -/
  config : controller.config = start.config
  /-- So is the window. -/
  window : controller.window = start.window
  /-- So is the wire latency. -/
  base : controller.base = start.base
  /-- So are the pending probes. -/
  pending : controller.pending = start.pending
  /-- So is the probe answered last. -/
  answered : controller.answered = start.answered
  /-- So is the time of its answer. -/
  answeredAt : controller.answeredAt = start.answeredAt
  /-- The bytes have moved the position. -/
  position : ∀ position : ℕ,
    start.position = finite position →
    controller.position =
      finite ((position + sent) % Arithmetic.ringSize : ℕ)
  /-- They are in the surplus if it is tracked. -/
  extra : ∀ extra : ℕ,
    start.base ≠ none →
    start.extra = finite extra →
    extra + sent < 2 ^ 53 →
    controller.extra = finite (extra + sent : ℕ)

/-- A burst begins when something was reported at the reading. -/
theorem Sound.burst
    (sound : controller.Sound readings)
    (calm : controller.Calm now)
    (updatedAt : controller.updatedAt = now) :
    Burst readings now controller 0 controller where
  sound := sound
  calm := calm
  updatedAt := updatedAt
  config := rfl
  window := rfl
  base := rfl
  pending := rfl
  answered := rfl
  answeredAt := rfl
  position := by
    intro position position_eq
    obtain ⟨number, number_eq, number_lt⟩ := sound.position
    have same : position = number := by
      rw [position_eq, finite.injEq] at number_eq
      exact_mod_cast number_eq
    rw [position_eq, add_zero, Nat.mod_eq_of_lt (same ▸ number_lt)]
  extra := by
    intro extra _ extra_eq _
    rw [extra_eq, add_zero]

/-- Without time nothing drains. -/
theorem drained_elapsed_self
    (spaced : FinitelySpaced readings)
    (now_mem : now ∈ readings)
    {window base : Binary64}
    (windowRanged : Window.Ranged window)
    (baseMeasured : RoundTrip readings base) :
    Buffering.drained window base (Time.elapsed now now) = finite 0 := by
  obtain ⟨bytes, rfl, _⟩ := windowRanged
  obtain ⟨base, rfl, base_pos⟩ := baseMeasured.exists_natCast spaced
  have base_pos : (0 : ℚ) < base := by exact_mod_cast base_pos
  unfold Buffering.drained
  rw [elapsed_self spaced now_mem, multiply_finite le_rfl (Nat.cast_nonneg _),
    zero_mul, Binary64.round_zero, divide_finite le_rfl base_pos, zero_div,
    Binary64.round_zero, floor_finite, Int.floor_zero, Int.cast_zero]

/-- What a report adds to the position is what it adds to the burst. -/
theorem Burst.added_report
    {start : Controller Binary64}
    {position sent size : ℕ}
    (burst : Burst readings now start sent controller)
    (start_position : start.position = finite position)
    (size_lt : size < Arithmetic.ringSize) :
    controller.added
        (((position + sent + size) % Arithmetic.ringSize : ℕ) : Binary64) =
      finite size := by
  have total_lt := mod_ringSize_lt (position + sent + size)
  unfold added
  rw [burst.sound.counting]
  change controller.distance (Arithmetic.residue _) controller.position = _
  rw [residue_natCast total_lt, burst.position position start_position,
    distance_finite burst.sound.counting total_lt (mod_ringSize_lt _)]
  congr 2
  unfold Arithmetic.ringSize at *
  omega

/-- A report at the reading adds its bytes to a surplus that is tracked. -/
theorem Burst.surplus_report
    (spaced : FinitelySpaced readings)
    (now_mem : now ∈ readings)
    {start : Controller Binary64}
    {sent size extra : ℕ}
    (burst : Burst readings now start sent controller)
    {total : Binary64}
    (added : controller.added total = finite size)
    (known : start.base ≠ none)
    (start_extra : start.extra = finite extra)
    (small : extra + (sent + size) < 2 ^ 53) :
    (controller.recordProgress now total).state.extra =
      finite (extra + (sent + size) : ℕ) := by
  have checked := burst.sound.checked now_mem total
  obtain ⟨_, base_eq⟩ :=
    burst.sound.recordProgress_of_calm spaced now_mem burst.calm total
  have checked_base : (controller.checked now total).base = start.base := by
    rw [← burst.base, ← base_eq, state_recordProgress]
  obtain ⟨base, base_known⟩ := Option.ne_none_iff_exists'.mp known
  rw [base_known] at checked_base
  have before := burst.extra extra known start_extra (by omega)
  have still := drained_elapsed_self spaced now_mem checked.window
    (checked.base base checked_base)
  rw [state_recordProgress]
  simp only [surplusAfter, checked_base, extra_checked, updatedAt_checked,
    burst.updatedAt, before, added]
  rw [still, add_finite, ← Nat.cast_add, round_natCast (by omega),
    subtract_finite, sub_zero, round_natCast (by omega), literal_zero,
    larger_finite, max_eq_right (Nat.cast_nonneg _), add_assoc]

/-- A report at the reading continues the burst. -/
theorem Burst.report
    (spaced : FinitelySpaced readings)
    (now_mem : now ∈ readings)
    {start : Controller Binary64}
    {position sent size : ℕ}
    (burst : Burst readings now start sent controller)
    (start_position : start.position = finite position)
    (size_lt : size < Arithmetic.ringSize) :
    Burst readings now start (sent + size)
      (controller.recordProgress now
        ((position + sent + size) % Arithmetic.ringSize : ℕ)).state := by
  have added := burst.added_report start_position size_lt
  set total : ℕ := (position + sent + size) % Arithmetic.ringSize with total_eq
  obtain ⟨window_eq, base_eq⟩ := burst.sound.recordProgress_of_calm spaced
    now_mem burst.calm (total : Binary64)
  exact {
    sound := burst.sound.recordProgress spaced now_mem _
    calm := burst.sound.calm_recordProgress _
    updatedAt := updatedAt_recordProgress _ _ _
    config := by rw [config_recordProgress, burst.config]
    window := by rw [window_eq, burst.window]
    base := by rw [base_eq, burst.base]
    pending := by rw [pending_recordProgress, burst.pending]
    answered := by rw [answered_recordProgress, burst.answered]
    answeredAt := by rw [answeredAt_recordProgress, burst.answeredAt]
    position := by
      intro number number_eq
      have same : number = position := by
        rw [start_position, finite.injEq] at number_eq
        exact_mod_cast number_eq.symm
      rw [position_recordProgress, burst.sound.counting, same, ← add_assoc,
        ← total_eq]
      exact residue_natCast (mod_ringSize_lt _)
    extra := by
      intro extra known start_extra small
      exact burst.surplus_report spaced now_mem added known start_extra small }

/-! ## Bytes on their way -/

/-- The bytes between the probe answered last and the position, counted by way
of the oldest pending probe; without a pending probe, the surplus. -/
def unanswered (controller : Controller Binary64) : ℚ :=
  match controller.pending with
  | [] => controller.extra.toRat
  | next :: _ =>
    (controller.distance next.position controller.answered.position).toRat +
      (controller.distance controller.position next.position).toRat

/-- The expected time between answers is a number. -/
theorem interval_count
    (spaced : FinitelySpaced readings)
    {window base sentAt extra : Binary64}
    {origin : Probe Binary64}
    (windowRanged : Window.Ranged window)
    (baseMeasured : RoundTrip readings base)
    (originSound : origin.Sound readings)
    (sentAt_mem : sentAt ∈ readings)
    (extraWhole : WholeUpTo 100 extra) :
    Count (Buffering.interval window base origin sentAt extra) := by
  obtain ⟨span, span_eq, _⟩ := spaced.elapsed originSound.sentAt sentAt_mem
  have behind := Buffering.delay_count spaced windowRanged baseMeasured extraWhole
  have ahead :=
    Buffering.delay_count spaced windowRanged baseMeasured originSound.extra
  have sum : Count (finite span + Buffering.delay window base extra) :=
    Count.add (.inr ⟨span, rfl⟩) behind
  simp only [Buffering.interval, span_eq]
  split
  · exact .zero
  · next more =>
      obtain ⟨number, number_eq, number_le⟩ :=
        sum.exists_natCast_of_not_le ahead more
      rw [number_eq]
      exact sum.subtract number_le

/-- Where the peer is taken to be does not depend on what was handed over
since. -/
theorem Burst.reachedTowards
    {start : Controller Binary64}
    {sent : ℕ}
    (burst : Burst readings now start sent controller)
    (base : Binary64)
    (next : Probe Binary64) :
    controller.reachedTowards now base next =
      start.reachedTowards now base next := by
  unfold Controller.reachedTowards interval distance
  rw [burst.config, burst.window, burst.answered, burst.answeredAt]

theorem Sound.onRing_reachedTowards
    (sound : controller.Sound readings)
    {next : Probe Binary64}
    (nextSound : next.Sound readings)
    (base : Binary64) :
    OnRing (controller.reachedTowards now base next) := by
  simp only [Controller.reachedTowards]
  split
  · exact nextSound.position
  · rw [sound.counting]
    exact onRing_residue _

/-- Between two probes at one position the peer is nowhere else. -/
theorem Sound.reachedTowards_of_same
    (spaced : FinitelySpaced readings)
    (sound : controller.Sound readings)
    (now_mem : now ∈ readings)
    {base : Binary64}
    (known : controller.base = some base)
    {next : Probe Binary64}
    (nextSound : next.Sound readings)
    {position : ℕ}
    (position_lt : position < Arithmetic.ringSize)
    (next_eq : next.position = finite position)
    (answered_eq : controller.answered.position = finite position) :
    controller.reachedTowards now base next = finite position := by
  have expected := interval_count spaced sound.window (sound.base base known)
    sound.answered nextSound.sentAt nextSound.extra
  obtain ⟨elapsed, elapsed_eq, _⟩ := spaced.elapsed sound.answeredAt now_mem
  simp only [Controller.reachedTowards, interval, elapsed_eq]
  generalize Buffering.interval controller.window base controller.answered
    next.sentAt next.extra = expectedTime at expected
  split
  · exact next_eq
  · next early =>
      have share : Arithmetic.floor
          (finite 0 * finite elapsed / expectedTime) = finite 0 := by
        rw [multiply_finite le_rfl (Nat.cast_nonneg _), zero_mul,
          Binary64.round_zero]
        obtain rfl | ⟨number, rfl⟩ := expected
        · rfl
        · have number_pos : (0 : ℚ) < number := by
            rw [finite_le_finite, not_le] at early
            exact (Nat.cast_nonneg elapsed).trans_lt early
          rw [divide_finite le_rfl number_pos, zero_div, Binary64.round_zero,
            floor_finite, Int.floor_zero, Int.cast_zero]
      have distance_eq : controller.distance (finite position)
          (finite position) = finite 0 := by
        rw [distance_finite sound.counting position_lt position_lt,
          Nat.add_sub_cancel_left, Nat.mod_self, Nat.cast_zero]
      have small : position < 2 ^ 53 := by
        unfold Arithmetic.ringSize at position_lt
        omega
      rw [next_eq, answered_eq, distance_eq, share, add_finite, add_zero,
        round_natCast small, sound.counting]
      have residue := residue_natCast position_lt
      rwa [natCast_eq small] at residue

/-- Before a burst can come back to the probe answered last it closes the
ring. -/
theorem Burst.not_all_answered
    {start : Controller Binary64}
    {position origin sent : ℕ}
    (burst : Burst readings now start sent controller)
    (start_position : start.position = finite position)
    (start_answered : start.answered.position = finite origin)
    (origin_lt : origin < Arithmetic.ringSize)
    (sent_pos : 0 < sent)
    (room : (position + Arithmetic.ringSize - origin) % Arithmetic.ringSize +
      sent < Arithmetic.ringSize) :
    ¬(controller.position == controller.answered.position) = true := by
  have way := way_add origin_lt room
  have apart : ¬(((position + sent) % Arithmetic.ringSize : ℕ) : ℚ) = origin := by
    rw [Nat.cast_inj]
    intro same
    rw [same, Nat.add_sub_cancel_left, Nat.mod_self] at way
    omega
  rw [burst.position position start_position, burst.answered, start_answered,
    finite_beq_finite, decide_eq_true_eq]
  exact apart

/-- The way from a position to that of the controller grows by the bytes of a
burst. -/
theorem Burst.distance_position
    {start : Controller Binary64}
    {position origin sent : ℕ}
    (burst : Burst readings now start sent controller)
    (start_position : start.position = finite position)
    (origin_lt : origin < Arithmetic.ringSize)
    (room : (position + Arithmetic.ringSize - origin) % Arithmetic.ringSize +
      sent < Arithmetic.ringSize) :
    controller.distance controller.position (finite origin) =
      finite ((position + Arithmetic.ringSize - origin) % Arithmetic.ringSize +
        sent : ℕ) := by
  rw [burst.position position start_position,
    distance_finite burst.sound.counting (mod_ringSize_lt _) origin_lt,
    way_add origin_lt room]

/-- If the window has room, the peer is taken to have reached a position from
which at most a window is on its way. -/
theorem Sound.way_reachedTowards_le
    (spaced : FinitelySpaced readings)
    (sound : controller.Sound readings)
    (now_mem : now ∈ readings)
    (free : controller.isCongested now = false)
    {base : Binary64}
    (known : controller.base = some base)
    {next : Probe Binary64}
    {rest : List (Probe Binary64)}
    (pending : controller.pending = next :: rest)
    {position : ℕ}
    (position_eq : controller.position = finite position)
    (level : controller.answered.position = finite position →
      next.position = finite position) :
    ∃ reached < Arithmetic.ringSize,
      controller.reachedTowards now base next = finite reached ∧
        (position + Arithmetic.ringSize - reached) % Arithmetic.ringSize ≤
          Window.maximum := by
  have nextSound := sound.pending next (pending ▸ List.mem_cons_self)
  obtain ⟨number, number_eq, position_lt⟩ := sound.position
  obtain rfl : position = number := by
    rw [position_eq, finite.injEq] at number_eq
    exact_mod_cast number_eq
  obtain ⟨origin, origin_eq, _⟩ := sound.answered.position
  by_cases same : position = origin
  · -- nothing was on its way, so the peer is at the position
    have answered_eq := same ▸ origin_eq
    refine ⟨position, position_lt, sound.reachedTowards_of_same spaced now_mem
      known nextSound position_lt (level answered_eq) answered_eq, ?_⟩
    rw [Nat.add_sub_cancel_left, Nat.mod_self]
    exact Nat.zero_le _
  · obtain ⟨reached, reached_eq, reached_lt⟩ :
        OnRing (controller.reachedTowards now base next) :=
      sound.onRing_reachedTowards nextSound base
    refine ⟨reached, reached_lt, reached_eq, ?_⟩
    have apart :
        ¬(controller.position == controller.answered.position) = true := by
      rw [position_eq, origin_eq, finite_beq_finite, decide_eq_true_eq]
      exact_mod_cast same
    have waiting : controller.inFlight now =
        finite ((position + Arithmetic.ringSize - reached) %
          Arithmetic.ringSize : ℕ) := by
      unfold inFlight
      rw [if_neg apart, known, pending]
      dsimp only
      rw [reached_eq, position_eq,
        distance_finite sound.counting position_lt reached_lt]
    obtain ⟨window, window_eq, _, window_le⟩ := sound.window
    unfold isCongested at free
    rw [decide_eq_false_iff_not, waiting, window_eq, finite_le_finite,
      not_le] at free
    have waiting_lt : (position + Arithmetic.ringSize - reached) %
        Arithmetic.ringSize < window := by exact_mod_cast free
    exact waiting_lt.le.trans window_le

/-- The bytes of a burst are on their way as long as a probe is pending. -/
theorem Burst.sent_le_inFlight_of_pending
    (spaced : FinitelySpaced readings)
    (now_mem : now ∈ readings)
    {start : Controller Binary64}
    {sent : ℕ}
    (burst : Burst readings now start sent controller)
    (startSound : start.Sound readings)
    (free : start.isCongested now = false)
    (sent_pos : 0 < sent)
    (sent_lt : sent < 2 ^ 31)
    {next : Probe Binary64}
    {rest : List (Probe Binary64)}
    (pending : start.pending = next :: rest)
    (room : start.unanswered + sent < Arithmetic.ringSize) :
    ∃ bytes : ℕ, controller.inFlight now = finite bytes ∧ sent ≤ bytes := by
  have nextSound := startSound.pending next (pending ▸ List.mem_cons_self)
  obtain ⟨position, position_eq, position_lt⟩ := startSound.position
  obtain ⟨nextPosition, next_eq, next_lt⟩ := nextSound.position
  obtain ⟨origin, origin_eq, origin_lt⟩ := startSound.answered.position
  -- the way from the answered probe to the position is shorter than the ring
  have way_lt : (nextPosition + Arithmetic.ringSize - origin) %
        Arithmetic.ringSize +
      (position + Arithmetic.ringSize - nextPosition) % Arithmetic.ringSize +
        sent < Arithmetic.ringSize := by
    unfold unanswered at room
    rw [pending] at room
    simp only [next_eq, origin_eq, position_eq,
      distance_finite startSound.counting next_lt origin_lt,
      distance_finite startSound.counting position_lt next_lt,
      toRat_finite] at room
    exact_mod_cast room
  have not_all := burst.not_all_answered position_eq origin_eq origin_lt
    sent_pos (by unfold Arithmetic.ringSize at *; omega)
  unfold inFlight
  rw [if_neg not_all, burst.pending, pending, burst.base]
  cases known : start.base with
  | none =>
      dsimp only
      rw [next_eq, burst.distance_position position_eq next_lt (by omega)]
      exact ⟨_, rfl, Nat.le_add_left _ _⟩
  | some base =>
      have level : start.answered.position = finite position →
          next.position = finite position := by
        intro answered_eq
        rw [origin_eq, finite.injEq, Nat.cast_inj] at answered_eq
        rw [next_eq, finite.injEq, Nat.cast_inj]
        unfold Arithmetic.ringSize at *
        omega
      obtain ⟨reached, reached_lt, reached_eq, way_le⟩ :=
        startSound.way_reachedTowards_le spaced now_mem free known pending
          position_eq level
      have reached_room : (position + Arithmetic.ringSize - reached) %
          Arithmetic.ringSize + sent < Arithmetic.ringSize := by
        unfold Window.maximum at way_le
        unfold Arithmetic.ringSize at *
        omega
      dsimp only
      rw [burst.reachedTowards base next, reached_eq,
        burst.distance_position position_eq reached_lt reached_room]
      exact ⟨_, rfl, Nat.le_add_left _ _⟩

/-- Without a pending probe, the peer is taken to lack the surplus at the time
of a report. -/
theorem Burst.reachedByDraining
    (spaced : FinitelySpaced readings)
    (now_mem : now ∈ readings)
    {start : Controller Binary64}
    {position extra sent : ℕ}
    (burst : Burst readings now start sent controller)
    (start_position : start.position = finite position)
    (start_extra : start.extra = finite extra)
    (known : start.base ≠ none)
    (total_lt : extra + sent < Arithmetic.ringSize)
    {base : ℕ} :
    controller.reachedByDraining now (finite base) =
      finite (((position + sent) % Arithmetic.ringSize + Arithmetic.ringSize -
        (extra + sent)) % Arithmetic.ringSize : ℕ) := by
  have moved := burst.position position start_position
  have moved_lt := mod_ringSize_lt (position + sent)
  have moved_small : (position + sent) % Arithmetic.ringSize < 2 ^ 53 := by
    unfold Arithmetic.ringSize at *
    omega
  have total_small : extra + sent < 2 ^ 53 := by
    unfold Arithmetic.ringSize at total_lt
    omega
  have surplus := burst.extra extra known start_extra total_small
  have soon : Time.elapsed now now ≤ finite (base : ℚ) := by
    rw [elapsed_self spaced now_mem, finite_le_finite]
    exact Nat.cast_nonneg _
  have drained : Arithmetic.smaller (finite 0) (finite (extra + sent : ℕ)) =
      finite 0 := by
    rw [smaller_finite, min_eq_left (Nat.cast_nonneg _)]
  rw [← residue_subtract moved_lt total_lt]
  simp only [Controller.reachedByDraining, receivedSince, burst.updatedAt,
    if_pos soon, moved, surplus, literal_zero, drained, burst.sound.counting]
  change Arithmetic.residue _ = _
  rw [subtract_natCast moved_small total_small, add_finite, add_zero,
    ← subtract_finite, subtract_natCast moved_small total_small]

/-- Without a pending probe the bytes of a burst are in the surplus, which is on
its way. -/
theorem Burst.sent_le_inFlight_of_answered
    (spaced : FinitelySpaced readings)
    (now_mem : now ∈ readings)
    {start : Controller Binary64}
    {sent : ℕ}
    (burst : Burst readings now start sent controller)
    (startSound : start.Sound readings)
    (sent_pos : 0 < sent)
    (answered : start.pending = [])
    (level : start.position = start.answered.position)
    (known : start.base ≠ none)
    (room : start.unanswered + sent < Arithmetic.ringSize) :
    ∃ bytes : ℕ, controller.inFlight now = finite bytes ∧ sent ≤ bytes := by
  obtain ⟨base, base_eq⟩ := Option.ne_none_iff_exists'.mp known
  obtain ⟨baseNumber, rfl, _⟩ :=
    (startSound.base base base_eq).exists_natCast spaced
  obtain ⟨position, position_eq, position_lt⟩ := startSound.position
  obtain ⟨extra, extra_eq, _⟩ := startSound.extra
  have total_lt : extra + sent < Arithmetic.ringSize := by
    unfold unanswered at room
    rw [answered] at room
    simp only [extra_eq, toRat_finite] at room
    exact_mod_cast room
  have not_all := burst.not_all_answered position_eq (level ▸ position_eq)
    position_lt sent_pos (by
      rw [Nat.add_sub_cancel_left, Nat.mod_self]
      omega)
  refine ⟨extra + sent, ?_, Nat.le_add_left _ _⟩
  unfold inFlight
  rw [if_neg not_all, burst.pending, answered, burst.base, base_eq]
  dsimp only
  rw [burst.reachedByDraining spaced now_mem position_eq extra_eq known total_lt,
    burst.position position position_eq,
    distance_finite burst.sound.counting (mod_ringSize_lt _)
      (mod_ringSize_lt _)]
  congr 2
  unfold Arithmetic.ringSize at *
  omega

/-- As long as the window has room for more, a burst is smaller than the
window. -/
theorem Burst.sent_lt_window
    (spaced : FinitelySpaced readings)
    (now_mem : now ∈ readings)
    {start : Controller Binary64}
    {sent window : ℕ}
    (burst : Burst readings now start sent controller)
    (startSound : start.Sound readings)
    (free : start.isCongested now = false)
    (stillFree : controller.isCongested now = false)
    (sent_lt : sent < 2 ^ 31)
    (level : start.pending = [] → start.position = start.answered.position)
    (tracked : start.base ≠ none ∨ start.pending ≠ [])
    (room : start.unanswered + sent < Arithmetic.ringSize)
    (window_eq : start.window = finite window) :
    sent < window := by
  obtain rfl | sent_pos := Nat.eq_zero_or_pos sent
  · obtain ⟨bytes, bytes_eq, bytes_ge, _⟩ := startSound.window
    rw [window_eq, finite.injEq, Nat.cast_inj] at bytes_eq
    unfold Window.minimum at bytes_ge
    omega
  have onTheWay :
      ∃ bytes : ℕ, controller.inFlight now = finite bytes ∧ sent ≤ bytes := by
    cases pending : start.pending with
    | nil =>
        have known : start.base ≠ none := by
          obtain known | probes := tracked
          · exact known
          · exact absurd pending probes
        exact burst.sent_le_inFlight_of_answered spaced now_mem startSound
          sent_pos pending (level pending) known room
    | cons next rest =>
        exact burst.sent_le_inFlight_of_pending spaced now_mem startSound free
          sent_pos sent_lt pending room
  obtain ⟨bytes, bytes_eq, sent_le⟩ := onTheWay
  unfold isCongested at stillFree
  rw [decide_eq_false_iff_not, bytes_eq, burst.window, window_eq,
    finite_le_finite, not_le] at stillFree
  have bytes_lt : bytes < window := by exact_mod_cast stillFree
  omega

end Controller
end Backpressure
