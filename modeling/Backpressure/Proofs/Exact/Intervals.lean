import Backpressure.Proofs.Exact.Countdown
import Backpressure.Proofs.Exact.Polling

/-!
# Intervals add up

Two estimates expect the answer to a pending probe.  The bytes on their way interpolate
over one interval, straight from the probe that was answered last.  The wait until the
window has room adds up the intervals from one probe to the next.  An interval is the
time between the moments at which the surplus ahead of two probes has drained, cut off at
zero.  Such times telescope, and cutting one off only lengthens the sum.  So the sum along
the pending probes is never less than the straight interval, and no more than it if
nothing was cut off.
-/

namespace Backpressure

open Arithmetic

namespace Controller

variable {controller : Controller ℚ} {base : ℚ}

/-! ## One interval -/

/-- When the surplus ahead of a probe has drained. -/
def clearedAt (controller : Controller ℚ) (base : ℚ) (probe : Probe ℚ) : ℚ :=
  probe.sentAt + Buffering.delay controller.window base probe.extra

/-- An interval is cut off at zero if the surplus ahead of the first probe takes longer to
drain than the time between the probes and the surplus ahead of the second one. -/
def CutsOff (controller : Controller ℚ) (base : ℚ) (origin probe : Probe ℚ) : Prop :=
  Time.elapsed origin.sentAt probe.sentAt +
      Buffering.delay controller.window base probe.extra <
    Buffering.delay controller.window base origin.extra

instance (controller : Controller ℚ) (base : ℚ) (origin probe : Probe ℚ) :
    Decidable (controller.CutsOff base origin probe) :=
  inferInstanceAs (Decidable (_ < _))

/-- Probes that were sent at whole readings of a clock that does not run backwards. -/
structure SentInOrder (probes : List (Probe ℚ)) : Prop where
  /-- The readings are whole. -/
  whole : ∀ probe ∈ probes, Arithmetic.Whole probe.sentAt
  /-- They never decrease. -/
  forward : probes.Pairwise fun earlier later => earlier.sentAt ≤ later.sentAt

section Interval

variable {origin probe : Probe ℚ} {rest : List (Probe ℚ)}

theorem SentInOrder.sublist
    {part probes : List (Probe ℚ)}
    (sent : SentInOrder probes)
    (sublist : part.Sublist probes) :
    SentInOrder part where
  whole := fun probe member => sent.whole probe (sublist.subset member)
  forward := sent.forward.sublist sublist

theorem SentInOrder.tail (sent : SentInOrder (origin :: rest)) : SentInOrder rest :=
  sent.sublist (List.sublist_cons_self origin rest)

theorem SentInOrder.elapsed_eq
    (sent : SentInOrder (origin :: rest))
    (member : probe ∈ rest) :
    Time.elapsed origin.sentAt probe.sentAt = probe.sentAt - origin.sentAt := by
  obtain ⟨originWhole, restWhole⟩ := List.forall_mem_cons.mp sent.whole
  exact Time.elapsed_of_whole (List.rel_of_pairwise_cons sent.forward member)
    ((restWhole probe member).sub originWhole)

/-- An interval is the time from the one moment to the other, cut off at zero. -/
theorem SentInOrder.interval_eq
    (sent : SentInOrder (origin :: rest))
    (member : probe ∈ rest) :
    controller.interval base origin probe =
      max 0 (controller.clearedAt base probe - controller.clearedAt base origin) := by
  unfold interval Buffering.interval clearedAt
  rw [sent.elapsed_eq member]
  simp only
  split_ifs with cut
  · exact (max_eq_left (by linarith)).symm
  · rw [max_eq_right (by linarith)]
    ring

theorem SentInOrder.sub_le_interval
    (sent : SentInOrder (origin :: rest))
    (member : probe ∈ rest) :
    controller.clearedAt base probe - controller.clearedAt base origin ≤
      controller.interval base origin probe := by
  rw [sent.interval_eq member]
  exact le_max_right _ _

theorem SentInOrder.not_cutsOff_iff
    (sent : SentInOrder (origin :: rest))
    (member : probe ∈ rest) :
    ¬controller.CutsOff base origin probe ↔
      controller.clearedAt base origin ≤ controller.clearedAt base probe := by
  unfold CutsOff clearedAt
  rw [sent.elapsed_eq member, not_lt]
  constructor
  · intro uncut
    linarith
  · intro inOrder
    linarith

/-- It is all of that time just if it is not cut off. -/
theorem SentInOrder.interval_eq_sub_iff
    (sent : SentInOrder (origin :: rest))
    (member : probe ∈ rest) :
    controller.interval base origin probe =
        controller.clearedAt base probe - controller.clearedAt base origin ↔
      ¬controller.CutsOff base origin probe := by
  rw [sent.interval_eq member, sent.not_cutsOff_iff member, max_eq_right_iff, sub_nonneg]

end Interval

/-! ## Intervals along probes -/

/-- The sum of the intervals from a probe along others, each from one probe to the
next. -/
def intervalAlong
    (controller : Controller ℚ)
    (base : ℚ)
    (anchor : Probe ℚ)
    (probes : List (Probe ℚ)) : ℚ :=
  (List.zipWith (controller.interval base) (anchor :: probes) probes).sum

section Along

variable {anchor last : Probe ℚ} {between : List (Probe ℚ)}

@[simp] theorem intervalAlong_nil (anchor : Probe ℚ) :
    controller.intervalAlong base anchor [] = 0 := rfl

@[simp] theorem intervalAlong_cons (anchor probe : Probe ℚ) (rest : List (Probe ℚ)) :
    controller.intervalAlong base anchor (probe :: rest) =
      controller.interval base anchor probe +
        controller.intervalAlong base probe rest := by
  unfold intervalAlong
  rw [List.zipWith_cons_cons, List.sum_cons]

theorem intervalAlong_nonneg (anchor : Probe ℚ) (probes : List (Probe ℚ)) :
    0 ≤ controller.intervalAlong base anchor probes := by
  induction probes generalizing anchor with
  | nil => exact le_rfl
  | cons probe rest inductionHypothesis =>
      rw [intervalAlong_cons]
      exact add_nonneg (controller.interval_nonneg base anchor probe)
        (inductionHypothesis probe)

/-- The times from one moment to the next telescope, and no interval is less than its
time. -/
theorem SentInOrder.clearedAt_sub_le
    (sent : SentInOrder (anchor :: (between ++ [last]))) :
    controller.clearedAt base last - controller.clearedAt base anchor ≤
      controller.intervalAlong base anchor (between ++ [last]) := by
  induction between generalizing anchor with
  | nil =>
      rw [List.nil_append, intervalAlong_cons, intervalAlong_nil, add_zero]
      exact sent.sub_le_interval List.mem_cons_self
  | cons probe rest inductionHypothesis =>
      rw [List.cons_append, intervalAlong_cons,
        ← sub_add_sub_cancel' (controller.clearedAt base probe)]
      exact add_le_add (sent.sub_le_interval List.mem_cons_self)
        (inductionHypothesis sent.tail)

/-- The sum is the whole time just if no interval along the way is cut off. -/
theorem SentInOrder.intervalAlong_eq_sub_iff
    (sent : SentInOrder (anchor :: (between ++ [last]))) :
    controller.intervalAlong base anchor (between ++ [last]) =
        controller.clearedAt base last - controller.clearedAt base anchor ↔
      (anchor :: (between ++ [last])).IsChain
        fun origin probe => ¬controller.CutsOff base origin probe := by
  induction between generalizing anchor with
  | nil =>
      rw [List.nil_append, intervalAlong_cons, intervalAlong_nil, add_zero,
        List.isChain_pair]
      exact sent.interval_eq_sub_iff List.mem_cons_self
  | cons probe rest inductionHypothesis =>
      -- Neither part of the sum is less than its time, so the sums agree only part by part.
      rw [List.cons_append, intervalAlong_cons, List.isChain_cons_cons,
        ← sub_add_sub_cancel' (controller.clearedAt base probe), eq_comm,
        add_eq_add_iff_eq_and_eq (sent.sub_le_interval List.mem_cons_self)
          sent.tail.clearedAt_sub_le]
      exact and_congr (eq_comm.trans (sent.interval_eq_sub_iff List.mem_cons_self))
        (eq_comm.trans (inductionHypothesis sent.tail))

/-- The straight interval is that time too, cut off only at the end. -/
theorem SentInOrder.interval_le_intervalAlong
    (sent : SentInOrder (anchor :: (between ++ [last]))) :
    controller.interval base anchor last ≤
      controller.intervalAlong base anchor (between ++ [last]) := by
  rw [sent.interval_eq (List.mem_append_right between List.mem_cons_self)]
  exact max_le (intervalAlong_nonneg anchor _) sent.clearedAt_sub_le

/-- The sum is equal to it just if nothing was cut off on the way, or nothing is left. -/
theorem SentInOrder.intervalAlong_eq_interval_iff
    (sent : SentInOrder (anchor :: (between ++ [last]))) :
    controller.intervalAlong base anchor (between ++ [last]) =
        controller.interval base anchor last ↔
      (anchor :: (between ++ [last])).IsChain
          (fun origin probe => ¬controller.CutsOff base origin probe) ∨
        controller.intervalAlong base anchor (between ++ [last]) = 0 := by
  have sum_nonneg : 0 ≤ controller.intervalAlong base anchor (between ++ [last]) :=
    intervalAlong_nonneg anchor _
  have time_le : controller.clearedAt base last - controller.clearedAt base anchor ≤
      controller.intervalAlong base anchor (between ++ [last]) :=
    sent.clearedAt_sub_le
  rw [← sent.intervalAlong_eq_sub_iff,
    sent.interval_eq (List.mem_append_right between List.mem_cons_self)]
  constructor
  · intro same
    obtain ⟨nothing, _⟩ | ⟨time, _⟩ := max_cases 0
      (controller.clearedAt base last - controller.clearedAt base anchor)
    · exact Or.inr (same.trans nothing)
    · exact Or.inl (same.trans time)
  · rintro (time | nothing)
    · rw [← time, max_eq_right sum_nonneg]
    · rw [nothing] at time_le ⊢
      exact (max_eq_left time_le).symm

end Along

/-! ## Two estimates -/

/-- The controller after the answer to a given probe, with other pending ones and a known
wire latency. -/
def awaiting
    (controller : Controller ℚ)
    (base : ℚ)
    (anchor : Probe ℚ)
    (pending : List (Probe ℚ)) : Controller ℚ :=
  { controller with base := some base, answered := anchor, pending }

section Estimates

variable {anchor last : Probe ℚ} {between rest : List (Probe ℚ)} {now : ℚ}

/-- The walk along probes does not depend on which ones are pending. -/
theorem arrival_awaiting
    (pending : List (Probe ℚ))
    (previous : Probe ℚ)
    (waited : ℚ)
    (probes : List (Probe ℚ)) :
    (controller.awaiting base anchor pending).arrival base previous waited probes =
      controller.arrival base previous waited probes := by
  induction probes generalizing previous waited with
  | nil => rfl
  | cons probe rest inductionHypothesis =>
      rw [arrival, arrival, inductionHypothesis]
      rfl

theorem untilUncongested_awaiting
    (full : controller.isAfter anchor.position controller.target = false)
    (pending : List (Probe ℚ)) :
    (controller.awaiting base anchor pending).untilUncongested now =
      some (max 0 (controller.arrival base anchor 0 pending -
        Time.elapsed controller.answeredAt now)) := by
  have walk : (controller.awaiting base anchor pending).arrival base anchor 0 pending =
      controller.arrival base anchor 0 pending :=
    arrival_awaiting pending anchor 0 pending
  rw [untilUncongested_eq, ← walk]
  exact if_neg (Bool.eq_false_iff.mp full)

/-- As long as no probe makes room, the walk adds up the intervals. -/
theorem arrival_append
    (waited : ℚ)
    (full : ∀ probe ∈ between ++ [last],
      controller.isAfter probe.position controller.target = false) :
    controller.arrival base anchor waited (between ++ [last] ++ rest) =
      controller.arrival base last
        (waited + controller.intervalAlong base anchor (between ++ [last])) rest := by
  induction between generalizing anchor waited with
  | nil =>
      have lastFull := full last List.mem_cons_self
      rw [List.nil_append, intervalAlong_cons, intervalAlong_nil, add_zero,
        List.singleton_append, arrival, if_neg (Bool.eq_false_iff.mp lastFull)]
  | cons probe between inductionHypothesis =>
      obtain ⟨probeFull, laterFull⟩ := List.forall_mem_cons.mp full
      rw [List.cons_append, List.cons_append, arrival,
        if_neg (Bool.eq_false_iff.mp probeFull), inductionHypothesis _ laterFull,
        intervalAlong_cons, add_assoc]

/-- Once the straight interval to the next probe has passed, only the bytes since that
probe are on their way. -/
theorem inFlight_awaiting_of_passed
    (moved : controller.position ≠ anchor.position)
    (passed : controller.interval base anchor last ≤
      Time.elapsed controller.answeredAt now) :
    (controller.awaiting base anchor (last :: rest)).inFlight now =
      controller.distance controller.position last.position := by
  have reached_eq :
      (controller.awaiting base anchor (last :: rest)).reachedTowards now base last =
        last.position :=
    if_pos passed
  unfold inFlight
  change (if controller.position == anchor.position then 0
    else controller.distance controller.position
      ((controller.awaiting base anchor (last :: rest)).reachedTowards now base last)) = _
  rw [beq_false_of_ne moved, if_neg Bool.false_ne_true, reached_eq]

end Estimates

/-- Intervals add up along the pending probes.  Take any controller, any wire latency, an
anchor and one or more probes after it that were sent at whole readings which never
decrease.  The sum of the intervals from one probe to the next is at least the straight
interval from the anchor to the last probe, and equal to it exactly if no interval on the
way was cut off at zero, or all of them are zero.  Let the controller wait for these
probes and any others, after the answer to the anchor.  If none of these probes makes
room, the wait until the window has room goes on from the last one with that sum, so the
walk expects its answer no earlier than the straight interval says.  And once as much
time as that sum has passed since the answer, the bytes on their way are estimated as if
the last probe had been answered, were it the next one. -/
theorem intervals_add_up
    (controller : Controller ℚ)
    (base : ℚ)
    (anchor last : Probe ℚ)
    (between : List (Probe ℚ))
    (sent : SentInOrder (anchor :: (between ++ [last]))) :
    let straight := controller.interval base anchor last
    let along := controller.intervalAlong base anchor (between ++ [last])
    straight ≤ along ∧
      (along = straight ↔
        (anchor :: (between ++ [last])).IsChain
            (fun origin probe => ¬controller.CutsOff base origin probe) ∨
          along = 0) ∧
      ∀ rest now,
        ((∀ probe ∈ anchor :: (between ++ [last]),
            controller.isAfter probe.position controller.target = false) →
          (controller.awaiting base anchor (between ++ [last] ++ rest)).untilUncongested
              now =
            some (max 0 (controller.arrival base last along rest -
              Time.elapsed controller.answeredAt now))) ∧
        (controller.position ≠ anchor.position →
          along ≤ Time.elapsed controller.answeredAt now →
            (controller.awaiting base anchor (last :: rest)).inFlight now =
              controller.distance controller.position last.position) := by
  intro straight along
  have straight_le : straight ≤ along := sent.interval_le_intervalAlong
  refine ⟨straight_le, sent.intervalAlong_eq_interval_iff, fun rest now => ⟨?_, ?_⟩⟩
  · intro full
    obtain ⟨anchorFull, laterFull⟩ := List.forall_mem_cons.mp full
    rw [untilUncongested_awaiting anchorFull, arrival_append 0 laterFull, zero_add]
  · intro moved passed
    exact inFlight_awaiting_of_passed moved (straight_le.trans passed)

/-- A burst on a wire of twenty milliseconds, whose probe is answered only after a pause
in which that latency was forgotten, and half a second after it was sent.  So the surplus
ahead of it counts for more than a second, the probe after the pause for none, and two
more follow behind new surpluses. -/
def slowerWire : List (ℚ × Action ℚ) :=
  [(0, .probeSent),
    (20, .probeAnswered),
    (20, .recordProgress 60000),
    (20, .probeSent),
    (200, .recordProgress 60000),
    (320, .recordProgress 60000),
    (320, .recordProgress 61000),
    (330, .probeSent),
    (520, .probeAnswered),
    (600, .recordProgress 100000),
    (600, .probeSent),
    (600, .recordProgress 140000),
    (640, .probeSent)]

/-- The interval to the probe after the pause is cut off: along it the next probe is
expected after 1180 milliseconds, and straight after 159.  From there on nothing is cut
off. -/
theorem intervals_add_up_slowerWire :
    let before := exactDefault.after slowerWire
    let burst : Probe ℚ := ⟨20, 60000, 43616, true⟩
    let rested : Probe ℚ := ⟨330, 61000, 0, false⟩
    let next : Probe ℚ := ⟨600, 100000, 29825, true⟩
    let last : Probe ℚ := ⟨640, 140000, 68515, true⟩
    (before.base = some 500 ∧ before.answered = burst ∧
        before.pending = [rested, next, last] ∧
        SentInOrder [burst, rested, next, last]) ∧
      (before.interval 500 burst next = 159 ∧
        before.intervalAlong 500 burst [rested, next] = 1180 ∧ (159 : ℚ) ≤ 1180) ∧
      before.untilUncongested 700 =
        some (max 0 (before.arrival 500 next 1180 [last] - 180)) ∧
      (before.awaiting 500 burst [next, last]).inFlight 1700 = 40000 ∧
      before.intervalAlong 500 rested [next, last] =
        before.interval 500 rested last := by
  intro before burst rested next last
  have known : before.base = some 500 := by decide +kernel
  have answered : before.answered = burst := by decide +kernel
  have pending : before.pending = [rested, next, last] := by decide +kernel
  have floors : ∀ probe ∈ [burst, rested, next, last],
      probe.sentAt = (⌊probe.sentAt⌋ : ℚ) := by
    decide +kernel
  have sent : SentInOrder [burst, rested, next, last] := {
    whole := fun probe member => ⟨⌊probe.sentAt⌋, floors probe member⟩
    forward := by decide +kernel }
  have straight : before.interval 500 burst next = 159 := by decide +kernel
  have along : before.intervalAlong 500 burst [rested, next] = 1180 := by decide +kernel
  have elapsed : Time.elapsed before.answeredAt 700 = 180 := by decide +kernel
  have waiting_eq : before.awaiting 500 burst [rested, next, last] = before := by
    rw [← answered, ← pending]
    unfold awaiting
    rw [← known]
  have full : ∀ probe ∈ [burst, rested, next],
      before.isAfter probe.position before.target = false := by
    decide +kernel
  have uncut : [rested, next, last].IsChain
      fun origin probe => ¬before.CutsOff 500 origin probe := by
    decide +kernel
  obtain ⟨straight_le, _, later⟩ := intervals_add_up before 500 burst next [rested]
    (sent.sublist (List.sublist_append_left [burst, rested, next] [last]))
  obtain ⟨_, sameIff, _⟩ := intervals_add_up before 500 rested last [next] sent.tail
  have waits : (before.awaiting 500 burst [rested, next, last]).untilUncongested 700 =
      some (max 0 (before.arrival 500 next
          (before.intervalAlong 500 burst [rested, next]) [last] -
        Time.elapsed before.answeredAt 700)) :=
    (later [last] 700).1 full
  rw [waiting_eq, along, elapsed] at waits
  have passes := (later [last] 1700).2 (by decide +kernel) (by decide +kernel)
  have distance_eq : before.distance before.position next.position = 40000 := by
    decide +kernel
  refine ⟨⟨known, answered, pending, sent⟩, ⟨straight, along, ?_⟩, waits,
    passes.trans distance_eq, sameIff.mpr (Or.inl uncut)⟩
  rw [← straight, ← along]
  exact straight_le

end Controller
end Backpressure
