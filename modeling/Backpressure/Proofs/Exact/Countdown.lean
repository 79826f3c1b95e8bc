import Backpressure.Proofs.Exact.InFlight
import Backpressure.Proofs.Exact.Wait

/-!
# The wait counts down

As long as nothing is reported, the wait until the window has room gets shorter by just
the time that passes.  It is made of the intervals along the pending probes, and of the
interval in which room is made only a share counts.  So it is at most the sum of the
intervals up to and including that one, less the time since the last answer.
-/

namespace Backpressure

open Arithmetic

namespace Controller

/-! ## Waiting -/

section Waiting

variable {controller : Controller ℚ} {now : ℚ}

/-- The wait is what is left of the expected arrival, cut off at zero. -/
theorem untilUncongested_eq (controller : Controller ℚ) (now : ℚ) :
    controller.untilUncongested now =
      if controller.isAfter controller.answered.position controller.target then some 0
      else controller.base.map fun base =>
        max 0 (controller.arrival base controller.answered 0 controller.pending -
          Time.elapsed controller.answeredAt now) := by
  have left_eq (arrival elapsed : ℚ) :
      (if arrival < elapsed then 0 else arrival - elapsed) = max 0 (arrival - elapsed) := by
    split_ifs with past
    · exact (max_eq_left (sub_neg.mpr past).le).symm
    · exact (max_eq_right (sub_nonneg.mpr (not_lt.mp past))).symm
  unfold untilUncongested
  simp only [left_eq]

/-- In whole milliseconds the wait gets shorter by the time that passes. -/
theorem untilUncongested_add
    (answeredAt_le : controller.answeredAt ≤ now)
    (delay : ℕ) :
    controller.untilUncongested (now + delay) =
      (controller.untilUncongested now).map fun wait : ℚ => max 0 (wait - delay) := by
  have delay_nonneg : (0 : ℚ) ≤ delay := Nat.cast_nonneg delay
  have elapsed_eq :=
    Time.elapsed_add answeredAt_le (Whole.natCast delay) delay_nonneg
  rw [untilUncongested_eq, untilUncongested_eq, elapsed_eq]
  split_ifs with room
  · rw [Option.map_some, zero_sub, max_eq_left (neg_nonpos.mpr delay_nonneg)]
  · rw [Option.map_map]
    congr 1
    funext base
    rw [Function.comp_apply, ← max_sub_sub_right, ← max_assoc, zero_sub,
      max_eq_left (neg_nonpos.mpr delay_nonneg), sub_sub]

end Waiting

/-! ## Intervals along the pending probes -/

/-- The intervals from a probe along others, and from the last of these to the last
report. -/
def intervals (controller : Controller ℚ) (base : ℚ) (previous : Probe ℚ) :
    List (Probe ℚ) → List ℚ
  | [] =>
    [Buffering.interval controller.window base previous controller.updatedAt
      controller.extra]
  | probe :: rest =>
    controller.interval base previous probe :: controller.intervals base probe rest

/-- Intervals do not depend on positions. -/
theorem intervals_renamed
    (controller : Controller ℚ)
    (base : ℚ)
    (previous : Probe ℚ)
    (probes : List (Probe ℚ)) :
    (controller.renamed .wrapped).intervals base (previous.renamed .wrapped)
        (probes.map (Probe.renamed .wrapped)) =
      controller.intervals base previous probes := by
  induction probes generalizing previous with
  | nil => rfl
  | cons probe rest inductionHypothesis =>
      rw [List.map_cons, intervals, intervals, inductionHypothesis]
      rfl

section Ideals

variable {controller : Controller ℚ}

/-- What is left at the target of an interval that contains it is not more than the
interval. -/
theorem Ideal.shareBeyondTarget_le
    (ideal : controller.Ideal)
    {interval position previous : ℚ}
    (interval_nonneg : 0 ≤ interval)
    (previous_le : previous ≤ controller.target)
    (target_lt : controller.target < position) :
    controller.shareBeyondTarget interval position previous ≤ interval := by
  have span_pos : 0 < position - previous := by linarith
  unfold shareBeyondTarget
  rw [ideal.distance_eq, ideal.distance_eq]
  apply (Int.floor_le _).trans
  rw [div_le_iff₀ span_pos]
  exact mul_le_mul_of_nonneg_left (sub_le_sub_left previous_le _) interval_nonneg

/-- If the target is still ahead, the expected arrival is at most the sum of the intervals
up to and including the one to the first probe past the target. -/
theorem Ideal.arrival_le
    (ideal : controller.Ideal)
    (base : ℚ)
    {previous : Probe ℚ}
    (waited : ℚ)
    (probes : List (Probe ℚ))
    (previous_le : previous.position ≤ controller.target) :
    controller.arrival base previous waited probes ≤
      waited + ((controller.intervals base previous probes).take
        (probes.findIdx (controller.target < ·.position) + 1)).sum := by
  induction probes generalizing previous waited with
  | nil =>
      have target_lt : controller.target < controller.position := by
        rw [ideal.target_eq]
        exact sub_lt_self _ ideal.window.pos
      have share_le := ideal.shareBeyondTarget_le
        (Buffering.interval_nonneg controller.window base previous controller.updatedAt
          controller.extra) previous_le target_lt
      rw [arrival, intervals, List.findIdx_nil, List.take_succ_cons, List.take_nil,
        List.sum_singleton]
      exact add_le_add_right share_le waited
  | cons probe rest inductionHypothesis =>
      have isAfter_eq : controller.isAfter probe.position controller.target =
          decide (controller.target < probe.position) := by
        unfold isAfter
        rw [ideal.counting, Counting.isAfter_unbounded]
      rw [arrival, intervals, List.findIdx_cons, isAfter_eq]
      by_cases past : controller.target < probe.position
      · have share_le := ideal.shareBeyondTarget_le
          (controller.interval_nonneg base previous probe) previous_le past
        simp only [decide_eq_true past, if_true, cond_true, Nat.zero_add,
          List.take_succ_cons, List.take_zero, List.sum_singleton]
        exact add_le_add_right share_le waited
      · have later := inductionHypothesis (waited + controller.interval base previous probe)
          (not_lt.mp past)
        simp only [decide_eq_false past, Bool.false_eq_true, if_false, cond_false,
          List.take_succ_cons, List.sum_cons]
        rwa [← add_assoc]

/-- So the wait is at most that sum, less the time since the last answer. -/
theorem Ideal.untilUncongested_le
    (ideal : controller.Ideal)
    {base : ℚ}
    (known : controller.base = some base)
    (answered_le : controller.answered.position ≤ controller.target)
    (now : ℚ) :
    ∃ wait, controller.untilUncongested now = some wait ∧
      wait ≤ max 0
        (((controller.intervals base controller.answered controller.pending).take
            (controller.pending.findIdx (controller.target < ·.position) + 1)).sum -
          Time.elapsed controller.answeredAt now) := by
  have notAfter :
      controller.isAfter controller.answered.position controller.target = false := by
    unfold isAfter
    rw [ideal.counting, Counting.isAfter_unbounded]
    exact decide_eq_false (not_lt.mpr answered_le)
  have arrival_le := ideal.arrival_le base 0 controller.pending answered_le
  rw [zero_add] at arrival_le
  rw [untilUncongested_eq, notAfter, known, if_neg Bool.false_ne_true, Option.map_some]
  exact ⟨_, rfl, max_le_max le_rfl (sub_le_sub_right arrival_le _)⟩

/-- If the last answered probe is recent, so are the pending ones. -/
theorem Ideal.recent_of_answered
    (ideal : controller.Ideal)
    (unanswered : controller.position - controller.answered.position <
      Counting.halfRing) :
    ∀ probe ∈ controller.answered :: controller.pending,
      controller.Recent probe.position := by
  have answeredRecent : controller.Recent controller.answered.position := {
    whole := ideal.probes _ List.mem_cons_self
    le_position := ideal.newest _ List.mem_cons_self
    near := unanswered }
  refine List.forall_mem_cons.mpr ⟨answeredRecent, fun probe member => ?_⟩
  have listed := List.mem_cons_of_mem controller.answered member
  exact answeredRecent.of_le (ideal.probes probe listed) (ideal.answered_le member)
    (ideal.newest probe listed)

end Ideals

end Controller

/-! ## Totals for positions -/

/-- The probe at the total that it was sent at. -/
def Sending.unrolled (sending : Sending ℚ) : Probe ℚ :=
  { sending.probe with position := sending.total }

namespace Journal

/-- The controller with the totals of a journal in the place of positions. -/
def unrolled
    (journal : Journal ℚ)
    (controller : Controller ℚ)
    (last : Sending ℚ)
    (behind : List (Sending ℚ)) : Controller ℚ :=
  { controller.counted .unbounded with
    position := journal.total
    answered := last.unrolled
    pending := behind.map Sending.unrolled }

section Unrolled

variable {journal : Journal ℚ} {controller : Controller ℚ}
variable {last : Sending ℚ} {behind : List (Sending ℚ)}

/-- With its totals reduced again, it is the controller itself. -/
theorem Describes.renamed_unrolled
    (describes : journal.Describes controller)
    (counting : controller.config.counting = .wrapping)
    (lineUp_eq : journal.lineUp = last :: behind) :
    (journal.unrolled controller last behind).renamed .wrapped = controller := by
  have probe_eq : ∀ sending ∈ last :: behind,
      sending.unrolled.renamed .wrapped = sending.probe := by
    intro sending member
    rw [← lineUp_eq] at member
    have position_eq := describes.positions sending (List.mem_of_mem_drop member)
    rw [counting] at position_eq
    unfold Sending.unrolled Probe.renamed
    rw [Naming.position_wrapped]
    change { sending.probe with position := Counting.wrapping.position sending.total } =
      sending.probe
    rw [← position_eq]
  have config_eq : { controller.config with counting := .wrapping } =
      controller.config := by
    rw [← counting]
  have position_eq : Arithmetic.residue journal.total = controller.position := by
    rw [describes.position, counting]
    rfl
  obtain ⟨lastProbe_eq, behind_eq⟩ := List.forall_mem_cons.mp probe_eq
  have described := describes.lineUp
  rw [lineUp_eq, List.map_cons, List.cons.injEq] at described
  obtain ⟨answered, pending⟩ := described
  have pending_eq :
      (behind.map Sending.unrolled).map (Probe.renamed .wrapped) =
        controller.pending := by
    rw [pending, List.map_map]
    exact List.map_congr_left behind_eq
  change { controller with
    config := { controller.config with counting := .wrapping }
    position := Arithmetic.residue journal.total
    answered := last.unrolled.renamed .wrapped
    pending := (behind.map Sending.unrolled).map (Probe.renamed .wrapped) } = controller
  rw [config_eq, position_eq, lastProbe_eq, ← answered, pending_eq]

/-- It is ideal. -/
theorem Rising.ideal_unrolled
    (rising : journal.Rising)
    (whole : controller.Whole)
    (lineUp_eq : journal.lineUp = last :: behind) :
    (journal.unrolled controller last behind).Ideal := by
  have sendings : ∀ sending ∈ last :: behind,
      Whole sending.total ∧ sending.total ≤ journal.total := by
    intro sending member
    rw [← lineUp_eq] at member
    exact rising.sendings sending (List.mem_of_mem_drop member)
  have probes_eq : last.unrolled :: behind.map Sending.unrolled =
      (last :: behind).map Sending.unrolled := rfl
  have sorted := rising.sorted_lineUp
  rw [lineUp_eq] at sorted
  exact {
    initialWindow := whole.initialWindow
    window := whole.window
    position := rising.whole
    extra := whole.extra
    extra_nonneg := whole.extra_nonneg
    base_pos := whole.base_pos
    probes := by
      change ∀ probe ∈ last.unrolled :: behind.map Sending.unrolled, _
      rw [probes_eq, List.forall_mem_map]
      exact fun sending member => (sendings sending member).1
    counting := rfl
    sorted := by
      change (last.unrolled :: behind.map Sending.unrolled).Pairwise _
      rw [probes_eq, List.pairwise_map]
      exact sorted
    newest := by
      change ∀ probe ∈ last.unrolled :: behind.map Sending.unrolled, _
      rw [probes_eq, List.forall_mem_map]
      exact fun sending member => (sendings sending member).2 }

end Unrolled

end Journal

namespace Controller

/-! ## Any history -/

/-- The wait until the window has room.  Take any controller that was started, any reports
of totals that do not decrease, told as totals or as their residues, on a clock that does
not run backwards, and one more reading.  Any number of whole milliseconds later the wait
is shorter by as many, and never negative; if it was unknown, it still is.  Let fewer bytes
than half of the ring has positions be handed over since the probe that was answered last,
and let that probe not be past the target, which is a window behind the last report.  If
the wire latency is known, so is the wait, and it is at most the sum of the intervals from
that probe along the pending ones up to and including the first one past the target, or up
to the last report if there is none, less the time since the answer. -/
theorem wait_counts_down
    (options : Options ℚ)
    (verifyByDefault : Bool)
    (start now : ℚ)
    (controller : Controller ℚ)
    (history : List (ℚ × Action ℕ))
    (started : Controller.start options verifyByDefault start = .ok controller)
    (nondecreasing : (totals history).Pairwise (· ≤ ·))
    (forward : (start :: history.map Prod.fst ++ [now]).Pairwise (· ≤ ·)) :
    let before := controller.after (exactly history)
    let journal := (Journal.opened start).after controller (exactly history)
    controller.after (exactly (onRing history)) = before ∧
      (∀ delay : ℕ, before.untilUncongested (now + delay) =
        (before.untilUncongested now).map fun wait : ℚ => max 0 (wait - delay)) ∧
      ∃ last behind,
        journal.lineUp = last :: behind ∧
          before.answered = last.probe ∧
          before.pending = behind.map Sending.probe ∧
          (journal.total - last.total < Counting.halfRing →
            last.total ≤ journal.total - before.window →
              ∀ base, before.base = some base →
                ∃ wait, before.untilUncongested now = some wait ∧
                  wait ≤ max 0
                    (((before.intervals base before.answered before.pending).take
                        (behind.findIdx (journal.total - before.window < ·.total) +
                          1)).sum -
                      Time.elapsed before.answeredAt now)) := by
  intro before journal
  obtain ⟨config, rfl, initial, counting⟩ := start_ok started
  have zero : config.counting.position (0 : ℚ) = 0 := by
    rw [counting]
    exact residue_of_onRing .zero le_rfl (by norm_num [ringSize])
  have describes : journal.Describes before :=
    (Journal.describes_opened config start zero).after _
  have rising : journal.Rising :=
    (Journal.rising_opened start).after (fun total _ => Nat.cast_nonneg total)
      nondecreasing
  obtain ⟨whole, beforeCounting⟩ :=
    (whole_fresh initial start).after counting (exactly history)
  obtain ⟨last, behind, lineUp_eq, answered, pending⟩ :=
    List.map_eq_cons_iff.mp describes.lineUp.symm
  refine ⟨after_onRing counting history, ?_, last, behind, lineUp_eq, answered.symm,
    pending.symm, ?_⟩
  · have answeredAt_mem := (fresh config start).answeredAt_after_mem (exactly history)
    rw [exactly, List.map_map] at answeredAt_mem
    exact untilUncongested_add ((List.pairwise_append.mp forward).2.2 _ answeredAt_mem now
      (List.mem_singleton.mpr rfl))
  · intro near answered_le base known
    let unrolled := journal.unrolled before last behind
    have ideal : unrolled.Ideal := rising.ideal_unrolled whole lineUp_eq
    have renamed_eq : unrolled.renamed .wrapped = before :=
      describes.renamed_unrolled beforeCounting lineUp_eq
    have target_eq : unrolled.target = journal.total - before.window := ideal.target_eq
    have intervals_eq : before.intervals base before.answered before.pending =
        unrolled.intervals base unrolled.answered unrolled.pending := by
      rw [← unrolled.intervals_renamed base, ← answered_renamed, ← pending_renamed,
        renamed_eq]
    have passed_eq : unrolled.pending.findIdx (unrolled.target < ·.position) =
        behind.findIdx (journal.total - before.window < ·.total) := by
      rw [target_eq]
      exact List.findIdx_map ..
    obtain ⟨wait, wait_eq, wait_le⟩ :=
      ideal.untilUncongested_le known (target_eq ▸ answered_le) now
    rw [passed_eq, ← intervals_eq] at wait_le
    refine ⟨wait, ?_, wait_le⟩
    rw [← wait_eq, ← renamed_eq]
    exact ideal.untilUncongested_of_recent (ideal.recent_of_answered near) now

/-- An answered probe, two pending ones of which the second makes room, and some more
bytes, while the ring turns once. -/
def queue : List (ℚ × Action ℕ) :=
  [(0, .recordProgress 4294960000),
    (0, .probeSent),
    (20, .probeAnswered),
    (20, .recordProgress 4294965000),
    (20, .probeSent),
    (21, .recordProgress 4294985000),
    (21, .probeSent),
    (22, .recordProgress 4294990000)]

theorem wait_counts_down_queue :
    let before := exactDefault.after (exactly queue)
    ((totals queue).Pairwise (· ≤ ·) ∧
        (0 :: queue.map Prod.fst ++ [25]).Pairwise (· ≤ ·) ∧
        before.base = some 20 ∧
        before.position = 22704) ∧
      before.untilUncongested 25 = some 28 ∧
      before.untilUncongested (25 + (7 : ℕ)) = some 21 ∧
      28 ≤ max 0 (20 + 24 - Time.elapsed before.answeredAt 25) := by
  intro before
  let journal := (Journal.opened 0).after exactDefault (exactly queue)
  have nondecreasing : (totals queue).Pairwise (· ≤ ·) := by decide +kernel
  have forward : (0 :: queue.map Prod.fst ++ [25]).Pairwise (· ≤ ·) := by decide +kernel
  have known : before.base = some 20 := by decide +kernel
  have window : before.window = 16384 := by decide +kernel
  have waits : before.untilUncongested 25 = some 28 := by decide +kernel
  have sentTotals : journal.lineUp.map Sending.total =
      [4294960000, 4294965000, 4294985000] := by
    decide +kernel
  have total : journal.total = 4294990000 := by decide +kernel
  have sum : ((before.intervals 20 before.answered before.pending).take 2).sum = 20 + 24 := by
    decide +kernel
  obtain ⟨_, countdown, last, behind, lineUp_eq, _, _, bound⟩ := wait_counts_down
    ⟨none, none⟩ true 0 25 exactDefault queue start_exactDefault nondecreasing forward
  have lineUp : journal.lineUp = last :: behind := lineUp_eq
  rw [lineUp] at sentTotals
  injection sentTotals with last_eq behind_eq
  have passed : behind.findIdx (journal.total - before.window < ·.total) = 1 := by
    rw [total, window]
    have mapped : (behind.map Sending.total).findIdx (4294990000 - 16384 < ·) = 1 := by
      rw [behind_eq]
      decide +kernel
    rwa [List.findIdx_map] at mapped
  have near : journal.total - last.total < Counting.halfRing := by
    rw [total, last_eq]
    norm_num [Counting.halfRing]
  have ahead : last.total ≤ journal.total - before.window := by
    rw [total, last_eq, window]
    norm_num
  obtain ⟨wait, wait_eq, wait_le⟩ := bound near ahead 20 known
  have wait_28 : some wait = some 28 := wait_eq.symm.trans waits
  have passed_eq : behind.findIdx (journal.total - before.window < ·.total) + 1 = 2 :=
    congrArg Nat.succ passed
  have le_sum : wait ≤ max 0
      (((before.intervals 20 before.answered before.pending).take
          (behind.findIdx (journal.total - before.window < ·.total) + 1)).sum -
        Time.elapsed before.answeredAt 25) := wait_le
  rw [passed_eq, sum, Option.some.inj wait_28] at le_sum
  have later : before.untilUncongested (25 + (7 : ℕ)) =
      (some 28).map fun wait : ℚ => max 0 (wait - (7 : ℕ)) := by
    rw [← waits]
    exact countdown 7
  exact ⟨⟨nondecreasing, forward, known, by decide +kernel⟩, waits,
    later.trans (by norm_num), le_sum⟩

end Controller
end Backpressure
