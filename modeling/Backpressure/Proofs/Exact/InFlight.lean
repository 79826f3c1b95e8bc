import Backpressure.Proofs.Controller.Journal
import Backpressure.Proofs.Exact.Wrapping

/-!
# Bytes on their way between two answers

While a probe is pending, what the peer has received lies between the probe that was
answered last and the oldest pending one.  So the estimate of the bytes on their way
lies between the bytes handed over since the one and since the other, on the ring no
less than on totals, as long as the ring has not turned once since the last answered
probe.
-/

namespace Backpressure

open Arithmetic

/-! ## Totals in order -/

namespace Journal

/-- The totals of a journal are whole and never decrease, up to the present one. -/
structure Rising (journal : Journal ℚ) : Prop where
  /-- The present total is whole. -/
  whole : Whole journal.total
  /-- Every probe was sent at a whole total, and none at more than the present one. -/
  sendings : ∀ sending ∈ journal.first :: journal.sent,
    Whole sending.total ∧ sending.total ≤ journal.total
  /-- Every probe was sent at a total not below that of an earlier one. -/
  sorted : (journal.first :: journal.sent).Pairwise
    fun earlier later => earlier.total ≤ later.total

theorem rising_opened (start : ℚ) : (opened start).Rising where
  whole := .zero
  sendings := List.forall_mem_singleton.mpr ⟨.zero, le_rfl⟩
  sorted := List.pairwise_singleton _ _

section Steps

variable {journal : Journal ℚ} {controller : Controller ℚ}

theorem Rising.entered
    (rising : journal.Rising)
    (controller : Controller ℚ)
    (now : ℚ)
    (action : Controller.Action ℕ)
    (total_le : ∀ total, action = .recordProgress total →
      journal.total ≤ (total : ℚ)) :
    (journal.entered controller now (action.map Nat.cast)).Rising := by
  cases action with
  | recordProgress total =>
      refine ⟨.natCast total, ?_, rising.sorted⟩
      intro sending member
      obtain ⟨whole, le_total⟩ := rising.sendings sending member
      exact ⟨whole, le_total.trans (total_le total rfl)⟩
  | probeSent =>
      have sent_eq : journal.first ::
            (journal.entered controller now .probeSent).sent =
          (journal.first :: journal.sent) ++
            [⟨controller.probeNow now, journal.total⟩] := rfl
      refine ⟨rising.whole, ?_, ?_⟩
      · change ∀ sending ∈ journal.first ::
          (journal.entered controller now .probeSent).sent, _
        rw [sent_eq, List.forall_mem_append]
        exact ⟨rising.sendings,
          List.forall_mem_singleton.mpr ⟨rising.whole, le_rfl⟩⟩
      · change (journal.first ::
          (journal.entered controller now .probeSent).sent).Pairwise _
        rw [sent_eq, List.pairwise_append]
        refine ⟨rising.sorted, List.pairwise_singleton _ _, ?_⟩
        intro earlier member last last_mem
        rw [List.mem_singleton.mp last_mem]
        exact (rising.sendings earlier member).2
  | probeAnswered =>
      simp only [Controller.Action.map, Journal.entered]
      split_ifs
      · exact ⟨rising.whole, rising.sendings, rising.sorted⟩
      · exact rising

/-- Totals that never decrease keep a journal in order. -/
theorem Rising.after
    (rising : journal.Rising)
    {history : List (ℚ × Controller.Action ℕ)}
    (total_le : ∀ total ∈ Controller.totals history, journal.total ≤ (total : ℚ))
    (nondecreasing : (Controller.totals history).Pairwise (· ≤ ·)) :
    (journal.after controller (Controller.exactly history)).Rising := by
  induction history generalizing journal controller with
  | nil => exact rising
  | cons step rest inductionHypothesis =>
      obtain ⟨now, action⟩ := step
      cases action with
      | recordProgress total =>
          obtain ⟨later_le, laterNondecreasing⟩ := List.pairwise_cons.mp nondecreasing
          apply inductionHypothesis _ _ laterNondecreasing
          · apply rising.entered controller now (.recordProgress total)
            rintro total ⟨⟩
            exact total_le total List.mem_cons_self
          · intro later member
            exact Nat.cast_le.mpr (later_le later member)
      | probeSent =>
          exact inductionHypothesis
            (rising.entered controller now .probeSent nofun) total_le
            nondecreasing
      | probeAnswered =>
          apply inductionHypothesis
            (rising.entered controller now .probeAnswered nofun) _ nondecreasing
          simp only [Controller.Action.map, Journal.entered]
          split_ifs
          · exact total_le
          · exact total_le

/-- The totals of the answered probe and of the pending ones are in order. -/
theorem Rising.sorted_lineUp
    (rising : journal.Rising) :
    journal.lineUp.Pairwise fun earlier later => earlier.total ≤ later.total :=
  rising.sorted.sublist (List.drop_sublist _ _)

/-- The oldest pending probe follows the answered one. -/
theorem Describes.exists_lineUp_eq
    (describes : journal.Describes controller)
    (waiting : controller.pending ≠ []) :
    ∃ last next rest,
      journal.lineUp = last :: next :: rest ∧
        controller.answered = last.probe ∧
        controller.pending = (next :: rest).map Sending.probe := by
  obtain ⟨last, behind, lineUp_eq, answered, pending⟩ :=
    List.map_eq_cons_iff.mp describes.lineUp.symm
  have behind_ne : behind ≠ [] := by
    rintro rfl
    exact waiting pending.symm
  obtain ⟨next, rest, rfl⟩ := List.exists_cons_of_ne_nil behind_ne
  exact ⟨last, next, rest, lineUp_eq, answered.symm, pending.symm⟩

end Steps

end Journal

namespace Controller

/-! ## Estimates on the ring -/

/-- The totals that the positions of a controller stand for while it waits for the
answer to a probe. -/
structure StandsAt
    (controller : Controller ℚ)
    (probe : Probe ℚ)
    (last next total : ℚ) : Prop where
  /-- Positions are counted on the ring. -/
  counting : controller.config.counting = .wrapping
  /-- The probe that was answered last stands at the first total. -/
  answered : controller.answered.position = Arithmetic.residue last
  /-- The probe stands at the second one. -/
  pending : probe.position = Arithmetic.residue next
  /-- The last report is that of the third one. -/
  position : controller.position = Arithmetic.residue total
  /-- The totals are whole. -/
  whole : Arithmetic.Whole last ∧ Arithmetic.Whole next ∧ Arithmetic.Whole total
  /-- The probe was sent after the answered one. -/
  last_le : last ≤ next
  /-- It was not sent after the last report. -/
  next_le : next ≤ total
  /-- The ring has not turned once since the answered probe. -/
  near : total - last < ringSize

/-- The total that the peer is taken to have reached while the answer to a probe is on
its way, where the last answered probe stands at one total and this one at the next. -/
def reached (controller : Controller ℚ) (probe : Probe ℚ) (last next now : ℚ) : ℚ :=
  match controller.base with
  | none => next
  | some base =>
    let expected := controller.interval base controller.answered probe
    let elapsed := Time.elapsed controller.answeredAt now
    if expected ≤ elapsed then next
    else last + Arithmetic.floor ((next - last) * elapsed / expected)

section Estimates

variable {controller : Controller ℚ} {probe : Probe ℚ} {last next total : ℚ}

/-- From any total since the answered probe on, the ring knows the distance to the last
report. -/
theorem StandsAt.distance_eq
    (stands : controller.StandsAt probe last next total)
    {reached : ℚ}
    (reachedWhole : Arithmetic.Whole reached)
    (last_le : last ≤ reached)
    (reached_le : reached ≤ total) :
    controller.distance controller.position (Arithmetic.residue reached) =
      total - reached := by
  obtain ⟨_, _, totalWhole⟩ := stands.whole
  have near := stands.near
  unfold distance
  rw [stands.counting, stands.position]
  exact Counting.distance_residue_of_near totalWhole reachedWhole reached_le
    (by linarith)

/-- What the peer is taken to have reached lies between the two probes. -/
theorem StandsAt.reached_bounds
    (stands : controller.StandsAt probe last next total)
    (now : ℚ) :
    Arithmetic.Whole (controller.reached probe last next now) ∧
      last ≤ controller.reached probe last next now ∧
      controller.reached probe last next now ≤ next := by
  obtain ⟨lastWhole, nextWhole, _⟩ := stands.whole
  unfold reached
  cases controller.base with
  | none => exact ⟨nextWhole, stands.last_le, le_rfl⟩
  | some base =>
      dsimp only
      split_ifs with overdue
      · exact ⟨nextWhole, stands.last_le, le_rfl⟩
      · obtain ⟨share_nonneg, share_le⟩ := floor_share_bounds
          (sub_nonneg.mpr stands.last_le)
          (Time.elapsed_nonneg controller.answeredAt now) (not_le.mp overdue)
        refine ⟨lastWhole.add (.floor _), ?_, ?_⟩
        · exact le_add_of_nonneg_right share_nonneg
        · linarith

/-- The position towards the pending probe is that of the total reached. -/
theorem StandsAt.reachedTowards_eq
    (stands : controller.StandsAt probe last next total)
    {base : ℚ}
    (known : controller.base = some base)
    (now : ℚ) :
    controller.reachedTowards now base probe =
      Arithmetic.residue (controller.reached probe last next now) := by
  obtain ⟨lastWhole, nextWhole, _⟩ := stands.whole
  have span_near : next - last < ringSize := by
    linarith [stands.near, stands.next_le]
  have span_eq : controller.distance probe.position controller.answered.position =
      next - last := by
    unfold distance
    rw [stands.counting, stands.answered, stands.pending]
    exact Counting.distance_residue_of_near nextWhole lastWhole stands.last_le
      span_near
  unfold reachedTowards reached
  rw [known]
  dsimp only
  split_ifs with overdue
  · exact stands.pending
  · rw [span_eq, stands.answered, stands.counting]
    exact residue_residue_add lastWhole (.floor _)

/-- The totals of a journal are those of its controller. -/
theorem StandsAt.of_journal
    {journal : Journal ℚ}
    (describes : journal.Describes controller)
    (rising : journal.Rising)
    (counting : controller.config.counting = .wrapping)
    {last next : Sending ℚ}
    {rest : List (Sending ℚ)}
    (lineUp_eq : journal.lineUp = last :: next :: rest)
    (answered : controller.answered = last.probe)
    (near : journal.total - last.total < ringSize) :
    controller.StandsAt next.probe last.total next.total journal.total := by
  have present : last ∈ journal.lineUp ∧ next ∈ journal.lineUp := by
    simp [lineUp_eq]
  have last_mem := List.mem_of_mem_drop present.1
  have next_mem := List.mem_of_mem_drop present.2
  have sorted := rising.sorted_lineUp
  rw [lineUp_eq] at sorted
  exact {
    counting
    answered := by
      rw [answered, describes.positions last last_mem, counting]
      rfl
    pending := by
      rw [describes.positions next next_mem, counting]
      rfl
    position := by
      rw [describes.position, counting]
      rfl
    whole := ⟨(rising.sendings last last_mem).1, (rising.sendings next next_mem).1,
      rising.whole⟩
    last_le := List.rel_of_pairwise_cons sorted List.mem_cons_self
    next_le := (rising.sendings next next_mem).2
    near }

/-- What is on its way is what was handed over since the total reached. -/
theorem StandsAt.inFlight_eq
    (stands : controller.StandsAt probe last next total)
    {rest : List (Probe ℚ)}
    (pending : controller.pending = probe :: rest)
    (now : ℚ) :
    controller.inFlight now = total - controller.reached probe last next now := by
  obtain ⟨lastWhole, nextWhole, totalWhole⟩ := stands.whole
  have next_le := stands.next_le
  obtain ⟨reachedWhole, last_le_reached, reached_le⟩ := stands.reached_bounds now
  have same_iff : (controller.position == controller.answered.position) =
      (total == last) := by
    rw [stands.position, stands.answered]
    exact Counting.residue_beq_residue totalWhole lastWhole
      (stands.last_le.trans next_le) stands.near
  have distance_eq := stands.distance_eq reachedWhole last_le_reached
    (reached_le.trans next_le)
  unfold inFlight
  rw [same_iff, pending]
  split_ifs with same
  · -- What is reached stands between two equal totals, so all three are equal.
    have total_eq := beq_iff_eq.mp same
    linarith
  · cases known : controller.base with
    | none =>
        have reached_eq : controller.reached probe last next now = next := by
          unfold reached
          rw [known]
        dsimp only
        rw [← distance_eq, reached_eq, stands.pending]
    | some base =>
        dsimp only
        rw [stands.reachedTowards_eq known now, distance_eq]

/-- What is on its way lies between what was handed over since the pending probe and
since the answered one. -/
theorem StandsAt.inFlight_bounds
    (stands : controller.StandsAt probe last next total)
    {rest : List (Probe ℚ)}
    (pending : controller.pending = probe :: rest)
    (now : ℚ) :
    total - next ≤ controller.inFlight now ∧
      controller.inFlight now ≤ total - last := by
  obtain ⟨_, last_le_reached, reached_le⟩ := stands.reached_bounds now
  rw [stands.inFlight_eq pending now]
  exact ⟨sub_le_sub_left reached_le total, sub_le_sub_left last_le_reached total⟩

end Estimates

/-! ## Residues instead of totals -/

/-- A controller on the ring cannot tell a total from its residue. -/
theorem perform_onRing
    {controller : Controller ℚ}
    (counting : controller.config.counting = .wrapping)
    (now : ℚ)
    (action : Action ℕ) :
    controller.perform now ((action.map (· % ringSize)).map Nat.cast) =
      controller.perform now (action.map Nat.cast) := by
  cases action with
  | recordProgress total =>
      have same : controller.config.counting.position ((total % ringSize : ℕ) : ℚ) =
          controller.config.counting.position (total : ℚ) := by
        rw [counting]
        change Arithmetic.residue _ = Arithmetic.residue _
        rw [residue_natCast, residue_natCast, Nat.mod_mod]
      change controller.recordProgress now _ = controller.recordProgress now _
      unfold recordProgress
      rw [same]
  | probeSent => rfl
  | probeAnswered => rfl

theorem after_onRing
    {controller : Controller ℚ}
    (counting : controller.config.counting = .wrapping)
    (history : List (ℚ × Action ℕ)) :
    controller.after (exactly (onRing history)) =
      controller.after (exactly history) := by
  induction history generalizing controller with
  | nil => rfl
  | cons step rest inductionHypothesis =>
      obtain ⟨now, action⟩ := step
      change (controller.perform now
          ((action.map (· % ringSize)).map Nat.cast)).state.after
            (exactly (onRing rest)) =
        (controller.perform now (action.map Nat.cast)).state.after (exactly rest)
      rw [perform_onRing counting]
      apply inductionHypothesis
      rw [config_perform, counting]

/-! ## Any history -/

/-- The bytes on their way while a probe is pending.  Take any controller that was
started and any reports of totals that do not decrease, at any clock readings, told as
totals or as their residues, and let a journal list the probes with the totals they
were sent at.  If a probe is pending, the oldest one follows the one that was answered
last; and if fewer bytes than the ring has positions were handed over since that one,
then at every clock reading the estimate is at least the bytes since the oldest pending
probe and at most the bytes since the answered one. -/
theorem inFlight_between_answers
    (options : Options ℚ)
    (verifyByDefault : Bool)
    (start : ℚ)
    (controller : Controller ℚ)
    (history : List (ℚ × Action ℕ))
    (started : Controller.start options verifyByDefault start = .ok controller)
    (nondecreasing : (totals history).Pairwise (· ≤ ·)) :
    let before := controller.after (exactly history)
    let journal := (Journal.opened start).after controller (exactly history)
    controller.after (exactly (onRing history)) = before ∧
      (before.pending ≠ [] →
        ∃ last next rest,
          journal.lineUp = last :: next :: rest ∧
            before.answered = last.probe ∧
            before.pending = (next :: rest).map Sending.probe ∧
            (journal.total - last.total < ringSize →
              ∀ now,
                journal.total - next.total ≤ before.inFlight now ∧
                  before.inFlight now ≤ journal.total - last.total)) := by
  intro before journal
  obtain ⟨config, rfl, _, counting⟩ := start_ok started
  have zero : config.counting.position (0 : ℚ) = 0 := by
    rw [counting]
    exact residue_of_onRing .zero le_rfl (by norm_num [ringSize])
  have describes : journal.Describes before :=
    (Journal.describes_opened config start zero).after _
  have rising : journal.Rising :=
    (Journal.rising_opened start).after (fun total _ => Nat.cast_nonneg total)
      nondecreasing
  have beforeCounting : before.config.counting = .wrapping := by
    rw [config_after]
    exact counting
  refine ⟨after_onRing counting history, ?_⟩
  intro waiting
  obtain ⟨last, next, rest, lineUp_eq, answered, pending⟩ :=
    describes.exists_lineUp_eq waiting
  refine ⟨last, next, rest, lineUp_eq, answered, pending, fun near now => ?_⟩
  have stands : before.StandsAt next.probe last.total next.total journal.total :=
    .of_journal describes rising beforeCounting lineUp_eq answered near
  exact stands.inFlight_bounds pending now

/-- A probe that is answered just before the ring has turned once, and one that is
pending when it has. -/
def acrossTheTurn : List (ℚ × Action ℕ) :=
  [(0, .recordProgress 4294967000),
    (0, .probeSent),
    (20, .probeAnswered),
    (21, .recordProgress 4294968000),
    (21, .probeSent),
    (22, .recordProgress 4294970000)]

theorem inFlight_between_answers_acrossTheTurn :
    let before := exactDefault.after (exactly acrossTheTurn)
    (totals acrossTheTurn).Pairwise (· ≤ ·) ∧
      before.base = some 20 ∧ before.position = 2704 ∧
      before.inFlight 30 = 2524 ∧
      2000 ≤ before.inFlight 30 ∧ before.inFlight 30 ≤ 3000 := by
  intro before
  let journal := (Journal.opened 0).after exactDefault (exactly acrossTheTurn)
  have nondecreasing : (totals acrossTheTurn).Pairwise (· ≤ ·) := by decide +kernel
  have waiting : before.pending.length = 1 := by decide +kernel
  have sentTotals : journal.lineUp.map Sending.total = [4294967000, 4294968000] := by
    decide +kernel
  have total : journal.total = 4294970000 := by decide +kernel
  obtain ⟨_, sandwich⟩ := inFlight_between_answers ⟨none, none⟩ true 0 exactDefault
    acrossTheTurn start_exactDefault nondecreasing
  obtain ⟨last, next, rest, lineUp_eq, _, _, between⟩ :=
    sandwich (List.ne_nil_of_length_eq_add_one waiting)
  have lineUp : journal.lineUp = last :: next :: rest := lineUp_eq
  rw [lineUp] at sentTotals
  injection sentTotals with last_eq others
  injection others with next_eq _
  have near : journal.total - last.total < ringSize := by
    rw [total, last_eq]
    norm_num [ringSize]
  have bounds : journal.total - next.total ≤ before.inFlight 30 ∧
      before.inFlight 30 ≤ journal.total - last.total := between near 30
  rw [total, last_eq, next_eq] at bounds
  norm_num at bounds
  exact ⟨nondecreasing, by decide +kernel, by decide +kernel, by decide +kernel,
    bounds⟩

end Controller
end Backpressure
