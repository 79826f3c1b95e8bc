import Backpressure.Proofs.Controller.Range

/-!
# The time until a window has room

Every estimate of this time is a whole number of milliseconds.  It divides by
distances between positions on different sides of the target, so it never
divides by zero.
-/

namespace Backpressure
namespace Controller

open Binary64

variable {readings : Set Binary64} {controller : Controller Binary64}

/-! ## Buffers -/

theorem delay_whole
    (spaced : Spaced 800 readings)
    {window base extra : Binary64}
    (windowRanged : Window.Ranged window)
    (baseMeasured : RoundTrip readings base)
    (extraWhole : WholeUpTo 100 extra) :
    WholeUpTo 900 (Buffering.delay window base extra) := by
  obtain ⟨bytes, rfl, bytes_ge, _⟩ := windowRanged
  have bytes_pos : 1 ≤ bytes := by
    unfold Window.minimum at bytes_ge
    omega
  have product : WholeUpTo (100 + 800) (extra * base) :=
    .multiply (by norm_num) (by norm_num) extraWhole
      (baseMeasured.wholeUpTo spaced (by norm_num))
  exact .floor_divide (by norm_num) (by norm_num) product bytes_pos

theorem interval_whole
    (spaced : Spaced 800 readings)
    {window base sentAt extra : Binary64}
    {origin : Probe Binary64}
    (windowRanged : Window.Ranged window)
    (baseMeasured : RoundTrip readings base)
    (originSound : origin.Sound readings)
    (sentAt_mem : sentAt ∈ readings)
    (extraWhole : WholeUpTo 100 extra) :
    WholeUpTo 901 (Buffering.interval window base origin sentAt extra) := by
  have elapsed := spaced.elapsed originSound.sentAt sentAt_mem
  have behind := delay_whole spaced windowRanged baseMeasured extraWhole
  have ahead := delay_whole spaced windowRanged baseMeasured originSound.extra
  have span : WholeUpTo (900 + 1)
      (Time.elapsed origin.sentAt sentAt + Buffering.delay window base extra) :=
    .add (by norm_num) (by norm_num) (elapsed.mono (by norm_num)) behind
  simp only [Buffering.interval]
  split
  · exact .zero
  · next longer =>
      exact .subtract (by norm_num) (by norm_num) span ahead.count
        (span.le_of_not_le ahead.count longer)

/-! ## Distances on the ring -/

/-- Different positions are at least a byte apart. -/
theorem exists_distance
    (counting : controller.config.counting = .wrapping)
    {first second : Binary64}
    (firstOnRing : OnRing first)
    (secondOnRing : OnRing second)
    (different : first ≠ second) :
    ∃ bytes : ℕ, controller.distance first second = finite bytes ∧ 1 ≤ bytes := by
  obtain ⟨one, rfl, one_lt⟩ := firstOnRing
  obtain ⟨two, rfl, two_lt⟩ := secondOnRing
  have numbers : one ≠ two := fun same => different (by rw [same])
  refine ⟨_, distance_finite counting one_lt two_lt, ?_⟩
  unfold Arithmetic.ringSize at *
  omega

/-- So are positions on different sides of the target. -/
theorem Sound.exists_distance_across
    (sound : controller.Sound readings)
    {first second : Binary64}
    (firstOnRing : OnRing first)
    (secondOnRing : OnRing second)
    (ahead : controller.isAfter first controller.target = true)
    (behind : ¬controller.isAfter second controller.target = true) :
    ∃ bytes : ℕ, controller.distance first second = finite bytes ∧ 1 ≤ bytes := by
  apply exists_distance sound.counting firstOnRing secondOnRing
  intro same
  rw [same] at ahead
  exact behind ahead

/-- The position is ahead of the target by one window. -/
theorem distance_position_target
    (sound : controller.Sound readings) :
    controller.distance controller.position controller.target =
      controller.window := by
  obtain ⟨position, position_eq, position_lt⟩ := sound.position
  obtain ⟨window, window_eq, _, window_le⟩ := sound.window
  have window_lt : window < Arithmetic.ringSize := by
    unfold Window.maximum at window_le
    unfold Arithmetic.ringSize
    omega
  have target_eq := residue_subtract position_lt window_lt
  have target_lt := mod_ringSize_lt (position + Arithmetic.ringSize - window)
  have bytes_eq : (position + Arithmetic.ringSize -
      (position + Arithmetic.ringSize - window) % Arithmetic.ringSize) %
        Arithmetic.ringSize = window := by
    unfold Arithmetic.ringSize at *
    omega
  unfold target
  rw [sound.counting, position_eq, window_eq]
  change controller.distance _ (Arithmetic.residue _) = _
  rw [target_eq, distance_finite sound.counting position_lt target_lt,
    bytes_eq]

theorem isAfter_position_target
    (sound : controller.Sound readings) :
    controller.isAfter controller.position controller.target = true := by
  have distance_eq := distance_position_target sound
  obtain ⟨window, window_eq, window_ge, window_le⟩ := sound.window
  unfold distance at distance_eq
  rw [sound.counting, window_eq] at distance_eq
  unfold Window.minimum at window_ge
  unfold Window.maximum at window_le
  have halfRing_eq : ((Counting.halfRing : ℕ) : Binary64) =
      finite Counting.halfRing :=
    natCast_eq (by norm_num [Counting.halfRing])
  have window_lt : (window : ℚ) < Counting.halfRing := by
    unfold Counting.halfRing
    exact_mod_cast (by omega : window < 2147483648)
  have window_ne : ¬(window : ℚ) = 0 := by
    exact_mod_cast (by omega : ¬window = 0)
  unfold isAfter
  rw [sound.counting]
  simp only [Counting.isAfter, distance_eq, halfRing_eq, bne, literal_zero,
    finite_beq_finite, finite_lt_finite, window_lt, window_ne, decide_true,
    decide_false, Bool.not_false, Bool.and_self]

/-! ## Estimates -/

theorem share_whole
    (sound : controller.Sound readings)
    {interval position previous : Binary64}
    (intervalWhole : WholeUpTo 901 interval)
    (positionOnRing : OnRing position)
    (previousOnRing : OnRing previous)
    (ahead : controller.isAfter position controller.target = true)
    (behind : ¬controller.isAfter previous controller.target = true) :
    WholeUpTo 933 (controller.shareBeyondTarget interval position previous) := by
  obtain ⟨bytes, distance_eq, bytes_pos⟩ :=
    sound.exists_distance_across positionOnRing previousOnRing ahead behind
  have part : OnRing (controller.distance position controller.target) := by
    unfold distance
    rw [sound.counting]
    exact onRing_distance _ _
  have product : WholeUpTo (901 + 32)
      (interval * controller.distance position controller.target) :=
    .multiply (by norm_num) (by norm_num) intervalWhole part.wholeUpTo
  unfold shareBeyondTarget
  rw [distance_eq]
  exact .floor_divide (by norm_num) (by norm_num) product bytes_pos

/-- However many probes are pending, every share lies between positions on
different sides of the target.  So what adding intervals and such shares keeps true
of a waited time is true of the expected arrival. -/
theorem Sound.arrival_induction
    (sound : controller.Sound readings)
    {Interval Waited : Binary64 → Prop}
    {base : Binary64}
    (interval : ∀ {origin sentAt extra}, origin.Sound readings →
      sentAt ∈ readings → WholeUpTo 100 extra →
      Interval (Buffering.interval controller.window base origin sentAt extra))
    (wait : ∀ {waited span}, Waited waited → Interval span →
      Waited (waited + span))
    (share : ∀ {waited span position previous}, Waited waited → Interval span →
      OnRing position → OnRing previous →
      controller.isAfter position controller.target = true →
      ¬controller.isAfter previous controller.target = true →
      Waited (waited + controller.shareBeyondTarget span position previous))
    {waited : Binary64}
    {previous : Probe Binary64}
    {probes : List (Probe Binary64)}
    (probesSound : ∀ probe ∈ probes, probe.Sound readings)
    (previousSound : previous.Sound readings)
    (behind : ¬controller.isAfter previous.position controller.target = true)
    (start : Waited waited) :
    Waited (controller.arrival base previous waited probes) := by
  induction probes generalizing previous waited with
  | nil =>
      have last := interval previousSound sound.updatedAt sound.extra
      exact share start last sound.position previousSound.position
        (isAfter_position_target sound) behind
  | cons probe rest inductionHypothesis =>
      obtain ⟨probeSound, restSound⟩ := List.forall_mem_cons.mp probesSound
      have next := interval previousSound probeSound.sentAt probeSound.extra
      unfold arrival
      split
      · next ahead =>
          exact share start next probeSound.position previousSound.position
            ahead behind
      · next behindProbe =>
          exact inductionHypothesis restSound probeSound behindProbe
            (wait start next)

/-- So the sum of the intervals is whole. -/
theorem arrival_whole
    (spaced : Spaced 800 readings)
    (sound : controller.Sound readings)
    {base waited : Binary64}
    {previous : Probe Binary64}
    {probes : List (Probe Binary64)}
    (baseMeasured : RoundTrip readings base)
    (probesSound : ∀ probe ∈ probes, probe.Sound readings)
    (previousSound : previous.Sound readings)
    (behind : ¬controller.isAfter previous.position controller.target = true)
    (waitedWhole : WholeUpTo 1000 waited) :
    WholeUpTo 1000 (controller.arrival base previous waited probes) := by
  apply sound.arrival_induction (interval_whole spaced sound.window baseMeasured)
  · intro waited span waitedWhole spanWhole
    exact .add_small (by norm_num) (by norm_num) (by norm_num) waitedWhole
      spanWhole
  · intro waited span position previous waitedWhole spanWhole positionOnRing
      previousOnRing ahead behind
    exact .add_small (by norm_num) (by norm_num) (by norm_num) waitedWhole
      (share_whole sound spanWhole positionOnRing previousOnRing ahead behind)
  · exact probesSound
  · exact previousSound
  · exact behind
  · exact waitedWhole

/-- The time until the window has room is a whole number, if it is known. -/
theorem untilUncongested_whole
    (spaced : Spaced 800 readings)
    (sound : controller.Sound readings)
    {now wait : Binary64}
    (now_mem : now ∈ readings)
    (estimated : controller.untilUncongested now = some wait) :
    WholeUpTo 1000 wait := by
  unfold untilUncongested at estimated
  split at estimated
  · rw [← Option.some.inj estimated]
    exact .zero
  · next behind =>
      obtain ⟨base, known, rfl⟩ := Option.map_eq_some_iff.mp estimated
      have arrival := arrival_whole spaced sound (sound.base base known)
        sound.pending sound.answered behind .zero
      have elapsed := spaced.elapsed sound.answeredAt now_mem
      dsimp only
      split
      · exact .zero
      · next later =>
          exact .subtract (by norm_num) (by norm_num) arrival elapsed.count
            (arrival.le_of_not_lt elapsed.count later)

end Controller
end Backpressure
