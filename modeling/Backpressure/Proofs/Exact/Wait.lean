import Backpressure.Proofs.Exact.Controller

/-!
# Waiting for room in the window

Two estimates interpolate between the last answer and the next one.  The bytes
on their way shrink by the share of the interval that has passed.  The wait until
the window has room, however, takes the share that is left after the window has
room, where the share before it is needed.  So the window is free in time if
the last part of the interval is the longer one, and it may stay full otherwise.
-/

namespace Backpressure

open Arithmetic

/-- Nothing is expected before what it follows. -/
theorem Buffering.interval_nonneg
    (window base : ℚ)
    (origin : Probe ℚ)
    (sentAt extra : ℚ) :
    0 ≤ Buffering.interval window base origin sentAt extra := by
  unfold Buffering.interval
  simp only
  split
  · exact le_rfl
  · next ahead =>
      linarith

namespace Controller

/-! ## Between two answers -/

/-- The bytes from the last answered probe to another one. -/
def span (controller : Controller ℚ) (next : Probe ℚ) : ℚ :=
  controller.distance next.position controller.answered.position

/-- The bytes handed over since a probe. -/
def since (controller : Controller ℚ) (next : Probe ℚ) : ℚ :=
  controller.distance controller.position next.position

/-- A controller on the ring that waits for the answer to a probe, with less than
half of the ring between the last answered one and the last report. -/
structure Awaits
    (controller : Controller ℚ)
    (base : ℚ)
    (next : Probe ℚ) : Prop extends Whole controller where
  /-- Positions are counted on the ring. -/
  counting : controller.config.counting = .wrapping
  /-- The wire latency is known. -/
  known : controller.base = some base
  /-- The probe is the oldest one without an answer. -/
  oldest : controller.pending.head? = some next
  /-- The last answered probe, this one and the last report are in order. -/
  inOrder : controller.span next + controller.since next < Counting.halfRing

section Between

variable {controller : Controller ℚ} {base : ℚ} {next : Probe ℚ}

/-- The positions as whole numbers, and the bytes between them as remainders. -/
theorem Awaits.exists_intCast (awaits : controller.Awaits base next) :
    ∃ answered oldest position : ℤ,
      controller.answered.position = answered ∧ next.position = oldest ∧
        controller.position = position ∧
        controller.span next = ((oldest - answered) % ringSize : ℤ) ∧
        controller.since next = ((position - oldest) % ringSize : ℤ) ∧
        (oldest - answered) % (ringSize : ℤ) + (position - oldest) % ringSize <
          Counting.halfRing := by
  have next_mem : next ∈ controller.answered :: controller.pending :=
    List.mem_cons_of_mem _ (List.mem_of_head? awaits.oldest)
  obtain ⟨answered, answered_eq⟩ := awaits.probes _ List.mem_cons_self
  obtain ⟨oldest, oldest_eq⟩ := awaits.probes next next_mem
  obtain ⟨position, position_eq⟩ := awaits.position
  have span_eq : controller.span next =
      ((oldest - answered) % ringSize : ℤ) := by
    rw [span, distance, awaits.counting, answered_eq, oldest_eq,
      Counting.distance_intCast]
  have since_eq : controller.since next =
      ((position - oldest) % ringSize : ℤ) := by
    rw [since, distance, awaits.counting, position_eq, oldest_eq,
      Counting.distance_intCast]
  have inOrder := awaits.inOrder
  rw [span_eq, since_eq] at inOrder
  exact ⟨answered, oldest, position, answered_eq, oldest_eq, position_eq,
    span_eq, since_eq, by exact_mod_cast inOrder⟩

theorem Awaits.distance_nonneg
    (awaits : controller.Awaits base next)
    (later earlier : ℚ) :
    0 ≤ controller.distance later earlier := by
  unfold distance
  rw [awaits.counting]
  exact Counting.distance_nonneg later earlier

theorem Awaits.span_nonneg (awaits : controller.Awaits base next) :
    0 ≤ controller.span next :=
  awaits.distance_nonneg _ _

theorem Awaits.distance_whole
    (awaits : controller.Awaits base next)
    (later earlier : ℚ) :
    Arithmetic.Whole (controller.distance later earlier) := by
  unfold distance
  rw [awaits.counting]
  exact .residue _

theorem Awaits.since_whole (awaits : controller.Awaits base next) :
    Arithmetic.Whole (controller.since next) :=
  awaits.distance_whole _ _

/-- The bytes that are missing until the window has room are whole. -/
theorem Awaits.missing_whole (awaits : controller.Awaits base next) :
    Arithmetic.Whole
      (controller.span next + controller.since next - controller.window) :=
  ((awaits.distance_whole _ _).add awaits.since_whole).sub awaits.window.whole

theorem interval_nonneg (controller : Controller ℚ) (base : ℚ)
    (origin probe : Probe ℚ) :
    0 ≤ controller.interval base origin probe :=
  Buffering.interval_nonneg _ _ _ _ _

/-! ### Bytes on their way -/

/-- If the last report is at the last answered position, there is nothing
between them. -/
theorem Awaits.eq_zero_of_position_eq
    (awaits : controller.Awaits base next)
    (same : controller.position = controller.answered.position) :
    controller.span next = 0 ∧ controller.since next = 0 := by
  obtain ⟨answered, oldest, position, answered_eq, _, position_eq, span_eq,
    since_eq, inOrder⟩ := awaits.exists_intCast
  rw [answered_eq, position_eq] at same
  rw [span_eq, since_eq]
  unfold Counting.halfRing ringSize at *
  norm_cast at same ⊢
  omega

/-- A whole share of the way to the probe leaves the rest of it, and what has
been handed over since. -/
theorem Awaits.distance_share
    (awaits : controller.Awaits base next)
    {share : ℚ}
    (shareWhole : Arithmetic.Whole share)
    (share_nonneg : 0 ≤ share)
    (share_le : share ≤ controller.span next) :
    controller.distance controller.position
        (controller.config.counting.position
          (controller.answered.position + share)) =
      controller.span next + controller.since next - share := by
  obtain ⟨answered, oldest, position, answered_eq, _, position_eq, span_eq,
    since_eq, inOrder⟩ := awaits.exists_intCast
  obtain ⟨share, rfl⟩ := shareWhole
  rw [span_eq] at share_le ⊢
  rw [since_eq, distance, awaits.counting, answered_eq, position_eq,
    ← Int.cast_add]
  change Counting.wrapping.distance _ (Arithmetic.residue _) = _
  rw [residue_intCast, Counting.distance_intCast]
  unfold Counting.halfRing ringSize at *
  norm_cast at share_nonneg share_le ⊢
  omega

/-- What is on its way: the bytes since the probe if its answer is overdue, and
all since the last answer less the share that has passed otherwise. -/
theorem Awaits.inFlight_eq
    (awaits : controller.Awaits base next)
    (now : ℚ) :
    controller.inFlight now =
      let interval := controller.interval base controller.answered next
      let elapsed := Time.elapsed controller.answeredAt now
      if interval ≤ elapsed then controller.since next
      else controller.span next + controller.since next -
        Arithmetic.floor (controller.span next * elapsed / interval) := by
  obtain ⟨rest, pending⟩ := List.head?_eq_some_iff.mp awaits.oldest
  unfold inFlight
  rw [awaits.known, pending]
  by_cases same : controller.position = controller.answered.position
  · obtain ⟨span_eq, since_eq⟩ := awaits.eq_zero_of_position_eq same
    simp [same, span_eq, since_eq, floor_exact]
  · rw [beq_eq_false_iff_ne.mpr same, if_neg Bool.false_ne_true]
    simp only [reachedTowards]
    split
    · rfl
    · next early =>
        obtain ⟨share_nonneg, share_le⟩ := floor_share_bounds awaits.span_nonneg
          (Time.elapsed_nonneg controller.answeredAt now) (not_le.mp early)
        exact awaits.distance_share (.floor _) share_nonneg share_le

/-- A full window holds no more than all bytes since the last answer. -/
theorem Awaits.window_le_of_isCongested
    (awaits : controller.Awaits base next)
    {now : ℚ}
    (congested : controller.isCongested now = true) :
    controller.window ≤ controller.span next + controller.since next := by
  refine (of_decide_eq_true congested).trans ?_
  rw [awaits.inFlight_eq]
  simp only
  split
  · linarith [awaits.span_nonneg]
  · next early =>
      obtain ⟨share_nonneg, _⟩ := floor_share_bounds awaits.span_nonneg
        (Time.elapsed_nonneg controller.answeredAt now) (not_le.mp early)
      linarith

/-- When the window has room again: once the share of the interval before the
target has passed, and one byte more. -/
theorem Awaits.isCongested_eq_false_iff
    (awaits : controller.Awaits base next)
    (room : controller.since next < controller.window)
    (now : ℚ) :
    controller.isCongested now = false ↔
      controller.interval base controller.answered next *
          (controller.span next + controller.since next - controller.window +
            1) ≤
        controller.span next * Time.elapsed controller.answeredAt now := by
  have missingWhole := awaits.missing_whole
  unfold isCongested
  rw [decide_eq_false_iff_not, not_le, awaits.inFlight_eq]
  simp only
  split
  · next overdue =>
      have room_one :=
        (awaits.since_whole.add_one_le_iff awaits.window.whole).mpr room
      have interval_nonneg :=
        controller.interval_nonneg base controller.answered next
      refine iff_of_true room ?_
      calc _ ≤ controller.interval base controller.answered next *
            controller.span next :=
            mul_le_mul_of_nonneg_left (by linarith) interval_nonneg
        _ ≤ _ := by
            rw [mul_comm]
            exact mul_le_mul_of_nonneg_left overdue awaits.span_nonneg
  · next early =>
      have interval_pos :=
        (Time.elapsed_nonneg controller.answeredAt now).trans_lt
          (not_le.mp early)
      rw [sub_lt_comm, ← missingWhole.add_one_le_iff (.floor _),
        (missingWhole.add .one).le_floor_iff, le_div_iff₀ interval_pos,
        mul_comm]

/-! ### The wait -/

/-- The time from the last answer that the estimate waits for: the share of the
interval that lies beyond the target. -/
def waitsFor (controller : Controller ℚ) (base : ℚ) (next : Probe ℚ) : ℚ :=
  Arithmetic.floor
    (controller.interval base controller.answered next *
      (controller.window - controller.since next) / controller.span next)

/-- The target lies between the last answered probe and the next one. -/
theorem Awaits.target_between
    (awaits : controller.Awaits base next)
    (full : controller.window ≤ controller.span next + controller.since next)
    (room : controller.since next < controller.window) :
    controller.isAfter controller.answered.position controller.target = false ∧
      controller.isAfter next.position controller.target = true ∧
      controller.distance next.position controller.target =
        controller.window - controller.since next := by
  obtain ⟨answered, oldest, position, answered_eq, oldest_eq, position_eq,
    span_eq, since_eq, inOrder⟩ := awaits.exists_intCast
  obtain ⟨window, window_eq⟩ := awaits.window.whole
  have window_lt := awaits.window.lt_halfRing
  have target_eq : controller.target =
      (((position - window) % ringSize : ℤ) : ℚ) := by
    unfold target
    rw [awaits.counting, position_eq, window_eq, ← Int.cast_sub]
    exact residue_intCast _
  rw [span_eq, since_eq, window_eq] at full
  rw [since_eq, window_eq] at room
  rw [window_eq] at window_lt
  rw [isAfter, isAfter, distance, awaits.counting, target_eq, answered_eq,
    oldest_eq, since_eq, window_eq, Counting.isAfter_intCast,
    Counting.isAfter_intCast, Counting.distance_intCast, decide_eq_false_iff_not,
    decide_eq_true_iff]
  unfold Counting.halfRing ringSize at *
  norm_cast at full room window_lt ⊢
  omega

/-- If the next answer makes room, the wait is for a share of its interval. -/
theorem Awaits.untilUncongested_eq
    (awaits : controller.Awaits base next)
    (full : controller.window ≤ controller.span next + controller.since next)
    (room : controller.since next < controller.window)
    (now : ℚ) :
    controller.untilUncongested now =
      some (max (controller.waitsFor base next)
          (Time.elapsed controller.answeredAt now) -
        Time.elapsed controller.answeredAt now) := by
  obtain ⟨rest, pending⟩ := List.head?_eq_some_iff.mp awaits.oldest
  obtain ⟨answered_before, next_after, beyond_eq⟩ :=
    awaits.target_between full room
  have arrival_eq : controller.arrival base controller.answered 0
      controller.pending = controller.waitsFor base next := by
    rw [pending]
    simp only [arrival, next_after, if_true, shareBeyondTarget, beyond_eq]
    exact zero_add _
  unfold untilUncongested
  rw [answered_before, if_neg Bool.false_ne_true, awaits.known, Option.map_some,
    arrival_eq]
  simp only
  split
  · next late => rw [max_eq_right late.le, sub_self]
  · next waiting => rw [max_eq_left (not_lt.mp waiting)]

/-- The share of the interval for as many bytes as are missing is long enough.
The two milliseconds make up for what both estimates round off. -/
theorem share_suffices
    (full : controller.window ≤ controller.span next + controller.since next)
    (room : controller.since next < controller.window)
    (dense : controller.interval base controller.answered next ≤
      controller.span next)
    {bytes : ℚ}
    (enough : controller.span next + controller.since next -
      controller.window ≤ bytes) :
    controller.interval base controller.answered next *
        (controller.span next + controller.since next - controller.window + 1) ≤
      controller.span next *
        (Arithmetic.floor (controller.interval base controller.answered next *
          bytes / controller.span next) + 2) := by
  have interval_nonneg :=
    controller.interval_nonneg base controller.answered next
  have span_pos : 0 < controller.span next := by linarith
  have floor_gt := Int.lt_floor_add_one
    (controller.interval base controller.answered next * bytes /
      controller.span next)
  rw [div_lt_iff₀ span_pos] at floor_gt
  rw [floor_exact]
  calc _ = controller.interval base controller.answered next *
            (controller.span next + controller.since next -
              controller.window) +
          controller.interval base controller.answered next := by ring
    _ ≤ controller.interval base controller.answered next * bytes +
          controller.span next :=
        add_le_add (mul_le_mul_of_nonneg_left enough interval_nonneg) dense
    _ ≤ (⌊controller.interval base controller.answered next * bytes /
            controller.span next⌋ + 1) * controller.span next +
          controller.span next :=
        add_le_add_left floor_gt.le _
    _ = _ := by ring

/-- Two milliseconds after the wait, the share beyond the target has passed
since the last answer, or what had passed before, and two milliseconds more. -/
theorem elapsed_after_wait
    {answeredAt now wait target : ℚ}
    (answeredAt_le : answeredAt ≤ now)
    (targetWhole : Arithmetic.Whole target)
    (wait_eq : wait = max target (Time.elapsed answeredAt now) -
      Time.elapsed answeredAt now) :
    Time.elapsed answeredAt (now + wait + 2) =
      max target (Time.elapsed answeredAt now) + 2 := by
  have elapsedWhole := Time.elapsed_whole answeredAt now
  have waitWhole : Arithmetic.Whole wait := by
    rw [wait_eq, ← larger_exact]
    exact (targetWhole.larger elapsedWhole).sub elapsedWhole
  have twoWhole : Arithmetic.Whole 2 := ⟨2, (Int.cast_ofNat 2).symm⟩
  have wait_nonneg : 0 ≤ wait := by
    rw [wait_eq, sub_nonneg]
    exact le_max_right _ _
  rw [add_assoc, Time.elapsed_add answeredAt_le (waitWhole.add twoWhole)
    (by positivity), wait_eq]
  ring

end Between

/-- The wait until the window has room ends in time if the target lies in the
first half of the interval.  Take any controller on the ring that is reached by
reports at readings that never decrease, that knows the wire latency, whose
window is full, and whose window has room after the next answer.  Let that
answer be expected to acknowledge at least a byte in each millisecond.  Two
milliseconds after the wait the window has room exactly if the share of the
interval beyond the target, or the time that has already passed, is long enough
for the share before the target; and it is long enough if the target lies in the
first half of the interval. -/
theorem uncongested_after_wait
    (options : Options ℚ)
    (verifyByDefault : Bool)
    (start now base : ℚ)
    (initial controller : Controller ℚ)
    (history : List (ℚ × Action ℚ))
    (next : Probe ℚ)
    (started : Controller.start options verifyByDefault start = .ok initial)
    (reached : controller = initial.after history)
    (nondecreasing :
      (start :: history.map Prod.fst ++ [now]).Pairwise (· ≤ ·))
    (known : controller.base = some base)
    (oldest : controller.pending.head? = some next)
    (inOrder : controller.span next + controller.since next < Counting.halfRing)
    (congested : controller.isCongested now = true)
    (room : controller.since next < controller.window)
    (dense : controller.interval base controller.answered next ≤
      controller.span next) :
    ∃ wait, controller.untilUncongested now = some wait ∧
      (controller.isCongested (now + wait + 2) = false ↔
        controller.interval base controller.answered next *
            (controller.span next + controller.since next - controller.window +
              1) ≤
          controller.span next *
            (max (controller.waitsFor base next)
              (Time.elapsed controller.answeredAt now) + 2)) ∧
      (controller.span next ≤ 2 * (controller.window - controller.since next) →
        controller.isCongested (now + wait + 2) = false) := by
  obtain ⟨config, rfl, accepted, counting⟩ := start_ok started
  obtain ⟨whole, stillCounting⟩ :=
    (whole_fresh accepted start).after counting history
  have answeredAt_mem := (fresh config start).answeredAt_after_mem history
  rw [← reached] at whole stillCounting answeredAt_mem
  have answeredAt_le : controller.answeredAt ≤ now :=
    (List.pairwise_append.mp nondecreasing).2.2 _ answeredAt_mem now
      (List.mem_singleton.mpr rfl)
  have awaits : controller.Awaits base next :=
    { whole with counting := stillCounting, known, oldest, inOrder }
  have full := awaits.window_le_of_isCongested congested
  have waitsForWhole : Arithmetic.Whole (controller.waitsFor base next) :=
    .floor _
  obtain ⟨wait, wait_eq, waits⟩ : ∃ wait,
      wait = max (controller.waitsFor base next)
          (Time.elapsed controller.answeredAt now) -
        Time.elapsed controller.answeredAt now ∧
      controller.untilUncongested now = some wait :=
    ⟨_, rfl, awaits.untilUncongested_eq full room now⟩
  have free_iff := awaits.isCongested_eq_false_iff room (now + wait + 2)
  rw [elapsed_after_wait answeredAt_le waitsForWhole wait_eq] at free_iff
  refine ⟨wait, waits, free_iff, fun half => ?_⟩
  rw [free_iff]
  calc _ ≤ controller.span next * (controller.waitsFor base next + 2) :=
        share_suffices full room dense (by linarith)
    _ ≤ _ := by
        apply mul_le_mul_of_nonneg_left _ awaits.span_nonneg
        linarith [le_max_left (controller.waitsFor base next)
          (Time.elapsed controller.answeredAt now)]

/-- A wire latency of twenty milliseconds, then a probe after twenty thousand
bytes, and some more bytes after it. -/
def probeBetween (bytesAfter : ℚ) : List (ℚ × Action ℚ) :=
  [(0, .probeSent), (20, .probeAnswered), (20, .recordProgress 0),
    (20, .recordProgress 20000), (20, .probeSent),
    (20, .recordProgress (20000 + bytesAfter))]

/-- The controller that took these reports. -/
def waiting (bytesAfter : ℚ) : Controller ℚ :=
  exactDefault.after (probeBetween bytesAfter)

/-- With two thousand bytes after the probe, the target lies in the first half of
the interval. -/
theorem uncongested_after_wait_twoThousand :
    (waiting 2000).isCongested 20 = true ∧
      ∃ wait, (waiting 2000).untilUncongested 20 = some wait ∧
        (waiting 2000).isCongested (20 + wait + 2) = false := by
  have congested : (waiting 2000).isCongested 20 = true := by decide +kernel
  obtain ⟨wait, waits, _, free⟩ := uncongested_after_wait ⟨none, none⟩ true 0 20
    20 _ (waiting 2000) (probeBetween 2000) ⟨20, 20000, 20000, true⟩
    start_exactDefault rfl (by decide +kernel) (by decide +kernel)
    (by decide +kernel) (by decide +kernel) congested (by decide +kernel)
    (by decide +kernel)
  exact ⟨congested, wait, waits, free (by decide +kernel)⟩

/-- With sixteen thousand bytes after it, the target lies close to the probe.
The wait is over at once, and two milliseconds later the window is still full. -/
theorem congested_after_wait_sixteenThousand :
    let controller := waiting 16000
    let next : Probe ℚ := ⟨20, 20000, 20000, true⟩
    controller.base = some 20 ∧ controller.pending.head? = some next ∧
      controller.span next + controller.since next < Counting.halfRing ∧
      controller.isCongested 20 = true ∧
      controller.since next < controller.window ∧
      controller.interval 20 controller.answered next ≤ controller.span next ∧
      controller.untilUncongested 20 = some 0 ∧
      controller.isCongested (20 + 0 + 2) = true := by
  decide +kernel

end Controller
end Backpressure
