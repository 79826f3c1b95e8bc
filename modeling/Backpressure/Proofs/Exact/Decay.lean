import Backpressure.Proofs.Exact.InFlight

/-!
# Estimates decay

As long as nothing is reported, only time passes, and time is taken to bring bytes to
the peer and to drain buffers.  So neither what is on its way nor the surplus that is
left is ever estimated higher at a later reading, and a window that has room stays so.
-/

namespace Backpressure

open Arithmetic

/-! ## Time and what it drains -/

namespace Arithmetic

/-- What is reduced to the ring stays as it is. -/
theorem residue_residue (value : ℚ) :
    Arithmetic.residue (Arithmetic.residue value) = Arithmetic.residue value := by
  obtain ⟨nonneg, lt_ringSize⟩ := ringResidue_bounds value
  apply residue_of_onRing (.residue value)
  · exact Int.cast_nonneg nonneg
  · exact Int.cast_lt.mpr lt_ringSize

end Arithmetic

namespace Time

/-- More time has elapsed at a later reading. -/
theorem elapsed_mono (start : ℚ) : Monotone (elapsed start) := by
  intro earlier later forward
  unfold elapsed
  rw [larger_exact, larger_exact]
  apply max_le_max le_rfl
  rw [floor_exact, floor_exact, Int.cast_le]
  exact Int.floor_mono (sub_le_sub_right forward start)

end Time

namespace Buffering

section Drained

variable {window base : ℚ}

/-- More drains in more time. -/
theorem drained_mono
    (window_pos : 0 < window)
    (base_pos : 0 < base) :
    Monotone (drained window base) := by
  intro shorter longer le
  unfold drained
  rw [floor_exact, floor_exact, Int.cast_le]
  apply Int.floor_mono
  gcongr

end Drained

end Buffering

namespace Controller

/-! ## Controllers on the ring -/

/-- All byte counts of a controller are whole, and its position lies on the ring. -/
structure WholeOnRing (controller : Controller ℚ) : Prop extends controller.Whole where
  /-- Positions are counted on the ring. -/
  counting : controller.config.counting = .wrapping
  /-- The position has been reduced. -/
  onRing : Arithmetic.residue controller.position = controller.position

section Steps

variable {controller : Controller ℚ}

theorem WholeOnRing.perform
    (ringed : controller.WholeOnRing)
    (now : ℚ)
    (action : Action ℚ) :
    (controller.perform now action).state.WholeOnRing where
  toWhole := by
    apply ringed.toWhole.perform
    intro total _
    rw [ringed.counting]
    exact .residue total
  counting := by
    rw [config_perform, ringed.counting]
  onRing := by
    cases action with
    | recordProgress total =>
        change Arithmetic.residue (controller.recordProgress now total).state.position =
          (controller.recordProgress now total).state.position
        rw [position_recordProgress, ringed.counting]
        exact residue_residue total
    | probeSent => exact ringed.onRing
    | probeAnswered =>
        change Arithmetic.residue (controller.probeAnswered now).state.position =
          (controller.probeAnswered now).state.position
        rw [position_probeAnswered, ringed.onRing]

theorem WholeOnRing.after
    (ringed : controller.WholeOnRing)
    (history : List (ℚ × Action ℚ)) :
    (controller.after history).WholeOnRing := by
  induction history generalizing controller with
  | nil => exact ringed
  | cons step rest inductionHypothesis =>
      exact inductionHypothesis (ringed.perform step.1 step.2)

/-- A controller starts on the ring. -/
theorem wholeOnRing_of_start
    {options : Options ℚ}
    {verifyByDefault : Bool}
    {start : ℚ}
    (started : Controller.start options verifyByDefault start = .ok controller) :
    controller.WholeOnRing := by
  obtain ⟨config, rfl, initial, counting⟩ := start_ok started
  exact { whole_fresh initial start with
    counting
    onRing := by
      change Arithmetic.residue (0 : ℚ) = 0
      exact residue_of_onRing .zero le_rfl (by norm_num [ringSize]) }

end Steps

section Estimates

variable {controller : Controller ℚ}

/-! ## The surplus -/

/-- What is left of the surplus is what has not drained. -/
theorem extraNow_eq
    {base : ℚ}
    (known : controller.base = some base)
    (now : ℚ) :
    controller.extraNow now =
      max 0 (controller.extra - Buffering.drained controller.window base
        (Time.elapsed controller.updatedAt now)) := by
  unfold extraNow
  rw [known]
  dsimp only
  split_ifs with gone
  · exact (max_eq_left (sub_nonpos.mpr gone)).symm
  · exact (max_eq_right (sub_nonneg.mpr (not_le.mp gone).le)).symm

theorem Whole.extraNow_antitone (whole : controller.Whole) :
    Antitone controller.extraNow := by
  intro earlier later forward
  cases known : controller.base with
  | none =>
      unfold extraNow
      rw [known]
  | some base =>
      rw [extraNow_eq known, extraNow_eq known]
      apply max_le_max le_rfl
      apply sub_le_sub_left
      exact Buffering.drained_mono whole.window.pos (whole.base_pos base known)
        (Time.elapsed_mono _ forward)

/-! ## Bytes on their way without a pending probe -/

theorem Whole.receivedSince_mono
    (whole : controller.Whole)
    {base : ℚ}
    (known : controller.base = some base) :
    Monotone (controller.receivedSince base) := by
  intro earlier later forward
  have elapsed_le := Time.elapsed_mono controller.updatedAt forward
  by_cases soon : Time.elapsed controller.updatedAt earlier ≤ base
  · have none : controller.receivedSince base earlier = 0 := if_pos soon
    rw [none]
    exact whole.receivedSince_nonneg known later
  · have notSoon : ¬Time.elapsed controller.updatedAt later ≤ base :=
      fun le => soon (elapsed_le.trans le)
    unfold receivedSince
    dsimp only
    rw [if_neg soon, if_neg notSoon]
    exact Buffering.drained_mono whole.window.pos (whole.base_pos base known)
      (sub_le_sub_right elapsed_le base)

/-- Without a pending probe, what is on its way is what the peer has not received of
the surplus. -/
theorem WholeOnRing.inFlight_eq
    (ringed : controller.WholeOnRing)
    (near : controller.extra < ringSize)
    (moved : ¬(controller.position == controller.answered.position) = true)
    {base : ℚ}
    (known : controller.base = some base)
    (pending : controller.pending = [])
    (now : ℚ) :
    controller.inFlight now =
      max 0 (controller.extra - controller.receivedSince base now) := by
  let drained := min (controller.receivedSince base now) controller.extra
  have drainedWhole : Arithmetic.Whole drained := by
    simp only [drained]
    rw [← smaller_exact]
    exact (controller.whole_receivedSince base now).smaller ringed.extra
  have drained_nonneg : 0 ≤ drained :=
    le_min (ringed.receivedSince_nonneg known now) ringed.extra_nonneg
  have drained_le : drained ≤ controller.extra := min_le_right _ _
  have left_eq : controller.extra - drained =
      max 0 (controller.extra - controller.receivedSince base now) := by
    simp only [drained]
    obtain ⟨min_eq, le⟩ | ⟨min_eq, lt⟩ :=
      min_cases (controller.receivedSince base now) controller.extra
    · rw [min_eq, max_eq_right (sub_nonneg.mpr le)]
    · rw [min_eq, sub_self, max_eq_left (sub_nonpos.mpr lt.le)]
  have reached_eq : controller.reachedByDraining now base =
      Arithmetic.residue (controller.position - controller.extra + drained) := by
    unfold reachedByDraining
    rw [ringed.counting, smaller_exact]
    rfl
  have distance_eq := Counting.distance_residue_of_near ringed.position
    ((ringed.position.sub ringed.extra).add drainedWhole) (by linarith) (by linarith)
  rw [ringed.onRing] at distance_eq
  unfold inFlight
  rw [if_neg moved, known, pending]
  dsimp only
  unfold distance
  rw [reached_eq, ringed.counting, distance_eq, ← left_eq]
  ring

theorem WholeOnRing.inFlight_antitone
    (ringed : controller.WholeOnRing)
    (near : controller.extra < ringSize)
    (pending : controller.pending = []) :
    Antitone controller.inFlight := by
  intro earlier later forward
  by_cases moved : (controller.position == controller.answered.position) = true
  · unfold inFlight
    rw [if_pos moved, if_pos moved]
  · cases known : controller.base with
    | none =>
        unfold inFlight
        rw [known, pending]
    | some base =>
        rw [ringed.inFlight_eq near moved known pending,
          ringed.inFlight_eq near moved known pending]
        apply max_le_max le_rfl
        exact sub_le_sub_left (ringed.receivedSince_mono known forward) _

/-! ## Bytes on their way to a pending probe -/

section Pending

variable {probe : Probe ℚ} {last next total : ℚ}

/-- The peer is taken to have reached no less at a later reading. -/
theorem StandsAt.reached_mono (stands : controller.StandsAt probe last next total) :
    Monotone (controller.reached probe last next) := by
  intro earlier later forward
  obtain ⟨_, _, earlier_le⟩ := stands.reached_bounds earlier
  cases known : controller.base with
  | none =>
      unfold reached
      rw [known]
  | some base =>
      let expected := controller.interval base controller.answered probe
      have elapsed_nonneg := Time.elapsed_nonneg controller.answeredAt earlier
      have elapsed_le := Time.elapsed_mono controller.answeredAt forward
      have span_nonneg := sub_nonneg.mpr stands.last_le
      unfold reached at earlier_le ⊢
      rw [known] at earlier_le ⊢
      dsimp only at earlier_le ⊢
      by_cases overdue : expected ≤ Time.elapsed controller.answeredAt later
      · -- Once the answer is overdue, all that was sent before it counts as received.
        rw [if_pos overdue]
        exact earlier_le
      · have notOverdue : ¬expected ≤ Time.elapsed controller.answeredAt earlier :=
          fun le => overdue (le.trans elapsed_le)
        have expected_pos : 0 < expected :=
          elapsed_nonneg.trans_lt (not_le.mp notOverdue)
        rw [if_neg overdue, if_neg notOverdue, floor_exact, floor_exact]
        apply add_le_add_right
        rw [Int.cast_le]
        apply Int.floor_mono
        gcongr

theorem StandsAt.inFlight_antitone
    (stands : controller.StandsAt probe last next total)
    {rest : List (Probe ℚ)}
    (pending : controller.pending = probe :: rest) :
    Antitone controller.inFlight := by
  intro earlier later forward
  rw [stands.inFlight_eq pending, stands.inFlight_eq pending]
  exact sub_le_sub_left (stands.reached_mono forward) total

end Pending

/-- A window that has room stays so as long as less and less is on its way. -/
theorem isCongested_of_antitone
    (antitone : Antitone controller.inFlight)
    {earlier later : ℚ}
    (forward : earlier ≤ later)
    (room : controller.isCongested earlier = false) :
    controller.isCongested later = false := by
  unfold isCongested at room ⊢
  rw [decide_eq_false_iff_not, not_le] at room ⊢
  exact (antitone forward).trans_lt room

end Estimates

/-! ## Any history -/

/-- Waiting never makes the estimates worse.  Take any controller that was started and
any reports of totals that do not decrease, at any clock readings, told as totals or as
their residues.  If fewer bytes than the ring has positions were handed over since the
probe that was answered last, and the stored surplus is smaller than that too, then at a
later reading neither what is on its way nor the surplus that is left is estimated higher
than at an earlier one, and a window that has room does not become full. -/
theorem estimates_never_grow
    (options : Options ℚ)
    (verifyByDefault : Bool)
    (start : ℚ)
    (controller : Controller ℚ)
    (history : List (ℚ × Action ℕ))
    (started : Controller.start options verifyByDefault start = .ok controller)
    (nondecreasing : (totals history).Pairwise (· ≤ ·)) :
    let before := controller.after (exactly history)
    let journal := (Journal.opened start).after controller (exactly history)
    controller.after (exactly (onRing history)) = before ∧
      ∃ last behind,
        journal.lineUp = last :: behind ∧
          before.answered = last.probe ∧
          (journal.total - last.total < ringSize → before.extra < ringSize →
            ∀ earlier later, earlier ≤ later →
              before.inFlight later ≤ before.inFlight earlier ∧
                before.extraNow later ≤ before.extraNow earlier ∧
                (before.isCongested earlier = false →
                  before.isCongested later = false)) := by
  intro before journal
  have ringed : before.WholeOnRing :=
    (wholeOnRing_of_start started).after (exactly history)
  obtain ⟨config, rfl, _, counting⟩ := start_ok started
  have zero : config.counting.position (0 : ℚ) = 0 := by
    rw [counting]
    exact residue_of_onRing .zero le_rfl (by norm_num [ringSize])
  have describes : journal.Describes before :=
    (Journal.describes_opened config start zero).after _
  have rising : journal.Rising :=
    (Journal.rising_opened start).after (fun total _ => Nat.cast_nonneg total)
      nondecreasing
  obtain ⟨last, behind, lineUp_eq, answered, pending⟩ :=
    List.map_eq_cons_iff.mp describes.lineUp.symm
  refine ⟨after_onRing counting history, last, behind, lineUp_eq, answered.symm, ?_⟩
  intro near extra_near earlier later forward
  have antitone : Antitone before.inFlight := by
    cases behind with
    | nil => exact ringed.inFlight_antitone extra_near pending.symm
    | cons next rest =>
        have stands : before.StandsAt next.probe last.total next.total journal.total :=
          .of_journal describes rising ringed.counting lineUp_eq answered.symm near
        exact stands.inFlight_antitone pending.symm
  exact ⟨antitone forward, ringed.extraNow_antitone forward,
    isCongested_of_antitone antitone forward⟩

/-- What is on its way to the pending probe and the surplus both shrink between two
readings. -/
theorem estimates_never_grow_acrossTheTurn :
    let before := exactDefault.after (exactly acrossTheTurn)
    (before.inFlight (47 / 2) = 2858 ∧ before.inFlight (61 / 2) = 2524) ∧
      (before.extraNow (47 / 2) = 362 ∧ before.extraNow (61 / 2) = 0) ∧
      before.inFlight (61 / 2) ≤ before.inFlight (47 / 2) ∧
      before.extraNow (61 / 2) ≤ before.extraNow (47 / 2) := by
  intro before
  let journal := (Journal.opened 0).after exactDefault (exactly acrossTheTurn)
  have nondecreasing : (totals acrossTheTurn).Pairwise (· ≤ ·) := by decide +kernel
  have sentTotals : journal.lineUp.map Sending.total = [4294967000, 4294968000] := by
    decide +kernel
  have total : journal.total = 4294970000 := by decide +kernel
  obtain ⟨_, last, behind, lineUp_eq, _, shrink⟩ := estimates_never_grow ⟨none, none⟩
    true 0 exactDefault acrossTheTurn start_exactDefault nondecreasing
  have lineUp : journal.lineUp = last :: behind := lineUp_eq
  rw [lineUp] at sentTotals
  injection sentTotals with last_eq _
  have near : journal.total - last.total < ringSize := by
    rw [total, last_eq]
    norm_num [ringSize]
  have extra_near : before.extra < ringSize := by decide +kernel
  obtain ⟨inFlight_le, extra_le, _⟩ :=
    shrink near extra_near (47 / 2) (61 / 2) (by norm_num)
  exact ⟨by decide +kernel, by decide +kernel, inFlight_le, extra_le⟩

end Controller
end Backpressure
