import Backpressure.Proofs.Controller.Idle

/-!
# The journal of probes

A controller keeps only the probes that still wait for an answer.  Here a journal
keeps all of them, each with the total of bytes handed over by then, and with the
readings at which answers arrived for them.  Whatever is reported in between, answers
belong to probes one to one and in the order the probes were sent: the probe that was
answered last and the pending ones are always the last ones of the journal.
-/

namespace Backpressure

open Binary64

/-! ## Notices -/

/-- Whether a notice is for the observer.  A stray answer is only logged. -/
def Notice.isObserved {α : Type} : Notice α → Bool
  | .adjusted _ _ _ _ => true
  | .idleReset _ _ _ => true
  | .backlog _ => true
  | .strayAnswer => false

/-- The number of pending probes that a notice tells. -/
def Notice.backlog? {α : Type} : Notice α → Option α
  | .adjusted _ _ _ _ => none
  | .idleReset _ _ _ => none
  | .backlog pending => some pending
  | .strayAnswer => none

/-! ## Journals -/

/-- A probe, and the total of bytes handed over when it was sent. -/
structure Sending (α : Type) where
  /-- The probe as it was sent. -/
  probe : Probe α
  /-- The total. -/
  total : α

/-- All probes of a history and the answers to them. -/
structure Journal (α : Type) where
  /-- What counts as answered before the first answer. -/
  first : Sending α
  /-- The total of bytes handed over. -/
  total : α
  /-- The probes that were sent, oldest first. -/
  sent : List (Sending α)
  /-- When answers arrived that a probe was waiting for, oldest first. -/
  arrivals : List α
  /-- How many of them the last idle reset found. -/
  forgotten : ℕ

namespace Journal

variable {α : Type} [Arithmetic α]

/-- The journal of a controller that has just been started. -/
def opened (start : α) : Journal α where
  first := ⟨⟨start, 0, 0, false⟩, 0⟩
  total := 0
  sent := []
  arrivals := []
  forgotten := 0

/-- The journal after one more report.  An answer that no probe is waiting for is
not entered. -/
def entered
    (journal : Journal α)
    (controller : Controller α)
    (now : α) : Controller.Action α → Journal α
  | .recordProgress total =>
    let events := (controller.recordProgress now total).events
    { journal with
      total
      forgotten :=
        if events.any Notice.isReset then journal.arrivals.length
        else journal.forgotten }
  | .probeSent =>
    { journal with
      sent := journal.sent ++ [⟨controller.probeNow now, journal.total⟩] }
  | .probeAnswered =>
    if journal.arrivals.length < journal.sent.length then
      { journal with arrivals := journal.arrivals ++ [now] }
    else journal

/-- The journal after a history of reports. -/
def after
    (journal : Journal α)
    (controller : Controller α) :
    List (α × Controller.Action α) → Journal α
  | [] => journal
  | (now, action) :: rest =>
    (journal.entered controller now action).after
      (controller.perform now action).state rest

/-- The probe that was answered last and those that wait for an answer. -/
def lineUp (journal : Journal α) : List (Sending α) :=
  (journal.first :: journal.sent).drop journal.arrivals.length

/-! ## The order of answers -/

/-- A journal is right about a controller. -/
structure Describes (journal : Journal α) (controller : Controller α) :
    Prop where
  /-- Every answer has its probe. -/
  arrivals_le : journal.arrivals.length ≤ journal.sent.length
  /-- The last idle reset found no more answers than there are. -/
  forgotten_le : journal.forgotten ≤ journal.arrivals.length
  /-- The last answer and the pending probes are those of the journal. -/
  lineUp : controller.answered :: controller.pending =
    journal.lineUp.map Sending.probe
  /-- The position is that of the total. -/
  position : controller.position =
    controller.config.counting.position journal.total
  /-- Every probe was sent at the position of its total. -/
  positions : ∀ sending ∈ journal.first :: journal.sent,
    sending.probe.position =
      controller.config.counting.position sending.total

theorem describes_opened
    (config : Config α)
    (start : α)
    (zero : config.counting.position (0 : α) = 0) :
    (opened start).Describes (Controller.fresh config start) where
  arrivals_le := le_rfl
  forgotten_le := le_rfl
  lineUp := rfl
  position := zero.symm
  positions := by
    intro sending member
    rw [List.mem_singleton.mp member]
    exact zero.symm

theorem describes_of_start
    {options : Options Binary64}
    {verifyByDefault : Bool}
    {start : Binary64}
    {controller : Controller Binary64}
    (started :
      Controller.start options verifyByDefault start = .ok controller) :
    (opened start).Describes controller := by
  obtain ⟨config, rfl, _, counting⟩ := Controller.start_ok started
  have zero : config.counting.position (0 : Binary64) = 0 := by
    rw [counting]
    decide +kernel
  exact describes_opened config start zero

section Steps

variable {journal : Journal α} {controller : Controller α}

/-- The pending probes are those without an answer, in the order they were sent. -/
theorem Describes.pending_eq (describes : journal.Describes controller) :
    controller.pending =
      (journal.sent.map Sending.probe).drop journal.arrivals.length := by
  have tails := congrArg List.tail describes.lineUp
  rw [Journal.lineUp, List.map_drop, List.tail_drop, List.map_cons,
    List.drop_succ_cons] at tails
  exact tails

/-- An answer is entered exactly if a probe is pending. -/
theorem Describes.arrivals_lt_iff (describes : journal.Describes controller) :
    journal.arrivals.length < journal.sent.length ↔ controller.pending ≠ [] := by
  rw [describes.pending_eq, ne_eq, List.drop_eq_nil_iff, List.length_map, not_le]

theorem Describes.recordProgress
    (describes : journal.Describes controller)
    (now total : α) :
    (journal.entered controller now (.recordProgress total)).Describes
      (controller.recordProgress now total).state where
  arrivals_le := describes.arrivals_le
  forgotten_le := by
    simp only [entered]
    split_ifs
    · exact le_rfl
    · exact describes.forgotten_le
  lineUp := by
    rw [Controller.answered_recordProgress, Controller.pending_recordProgress]
    exact describes.lineUp
  position := by
    rw [Controller.position_recordProgress, Controller.config_recordProgress]
    rfl
  positions := by
    rw [Controller.config_recordProgress]
    exact describes.positions

theorem Describes.probeSent
    (describes : journal.Describes controller)
    (now : α) :
    (journal.entered controller now .probeSent).Describes
      (controller.probeSent now).state where
  arrivals_le := by
    simp only [entered, List.length_append]
    exact Nat.le_add_right_of_le describes.arrivals_le
  forgotten_le := describes.forgotten_le
  lineUp := by
    have arrivals_le : journal.arrivals.length ≤
        (journal.first :: journal.sent).length :=
      Nat.le_succ_of_le describes.arrivals_le
    rw [Controller.state_probeSent]
    simp only [Journal.lineUp, entered]
    rw [← List.cons_append, ← List.cons_append, describes.lineUp,
      List.drop_append_of_le_length arrivals_le, List.map_append]
    rfl
  position := describes.position
  positions := by
    simp only [entered]
    rw [← List.cons_append, List.forall_mem_append]
    exact ⟨describes.positions,
      List.forall_mem_singleton.mpr describes.position⟩

theorem Describes.probeAnswered
    (describes : journal.Describes controller)
    (now : α) :
    (journal.entered controller now .probeAnswered).Describes
      (controller.probeAnswered now).state := by
  simp only [entered, describes.arrivals_lt_iff]
  cases pending : controller.pending with
  | nil =>
      rw [if_neg fun waiting => waiting rfl,
        Controller.probeAnswered_of_stray pending]
      exact describes
  | cons probe rest =>
      rw [if_pos (List.cons_ne_nil _ _)]
      have waiting := describes.arrivals_lt_iff.mpr (by simp [pending])
      constructor
      · rw [List.length_append]
        exact waiting
      · rw [List.length_append]
        exact Nat.le_add_right_of_le describes.forgotten_le
      · have tails := congrArg List.tail describes.lineUp
        rw [Controller.answered_probeAnswered, Controller.pending_probeAnswered,
          pending]
        rw [Journal.lineUp, List.map_drop, List.tail_drop, List.tail_cons,
          pending] at tails
        simp only [Journal.lineUp, List.length_append, List.length_singleton,
          List.map_drop]
        exact tails
      · rw [Controller.position_probeAnswered, Controller.config_probeAnswered]
        exact describes.position
      · rw [Controller.config_probeAnswered]
        exact describes.positions

theorem Describes.perform
    (describes : journal.Describes controller)
    (now : α)
    (action : Controller.Action α) :
    (journal.entered controller now action).Describes
      (controller.perform now action).state := by
  cases action with
  | recordProgress total => exact describes.recordProgress now total
  | probeSent => exact describes.probeSent now
  | probeAnswered => exact describes.probeAnswered now

/-- A journal stays right over any history. -/
theorem Describes.after
    (describes : journal.Describes controller)
    (history : List (α × Controller.Action α)) :
    (journal.after controller history).Describes (controller.after history) := by
  induction history generalizing journal controller with
  | nil => exact describes
  | cons step rest inductionHypothesis =>
      exact inductionHypothesis (describes.perform step.1 step.2)

/-- The next answer belongs to the probe that follows the answered ones. -/
theorem Describes.answered_probeAnswered
    (describes : journal.Describes controller)
    (waiting : controller.pending ≠ [])
    (now : α) :
    (journal.sent.map Sending.probe)[journal.arrivals.length]? =
        some (controller.probeAnswered now).state.answered ∧
      (controller.probeAnswered now).state.pending =
        (journal.sent.map Sending.probe).drop (journal.arrivals.length + 1) := by
  have pending := describes.pending_eq
  rw [Controller.answered_probeAnswered, Controller.pending_probeAnswered,
    ← List.tail_drop, ← pending, ← List.head?_drop, ← pending]
  obtain ⟨probe, rest, pending_cons⟩ := List.exists_cons_of_ne_nil waiting
  rw [pending_cons]
  exact ⟨rfl, rfl⟩

end Steps

/-! ## The order of probes -/

section Readings

variable (journal : Journal α) (controller : Controller α)
variable (history : List (α × Controller.Action α))

@[simp] theorem first_entered (now : α) (action : Controller.Action α) :
    (journal.entered controller now action).first = journal.first := by
  cases action with
  | recordProgress total => rfl
  | probeSent => rfl
  | probeAnswered =>
      simp only [entered]
      split_ifs
      · rfl
      · rfl

/-- A report enters at most the probe that is sent. -/
theorem sent_entered (now : α) (action : Controller.Action α) :
    (journal.entered controller now action).sent = journal.sent ∨
      (journal.entered controller now action).sent =
        journal.sent ++ [⟨controller.probeNow now, journal.total⟩] := by
  cases action with
  | recordProgress total => exact .inl rfl
  | probeSent => exact .inr rfl
  | probeAnswered =>
      simp only [entered]
      split_ifs
      · exact .inl rfl
      · exact .inl rfl

@[simp] theorem first_after :
    (journal.after controller history).first = journal.first := by
  induction history generalizing journal controller with
  | nil => rfl
  | cons step rest inductionHypothesis =>
      rw [after, inductionHypothesis, first_entered]

/-- Probes are sent at the readings of a history, in their order. -/
theorem sentAt_sublist :
    ((journal.after controller history).sent.map (·.probe.sentAt)).Sublist
      (journal.sent.map (·.probe.sentAt) ++ history.map Prod.fst) := by
  induction history generalizing journal controller with
  | nil =>
      rw [List.map_nil, List.append_nil]
      exact List.Sublist.refl _
  | cons step rest inductionHypothesis =>
      obtain ⟨now, action⟩ := step
      have later := inductionHypothesis (journal.entered controller now action)
        (controller.perform now action).state
      obtain kept | sent := journal.sent_entered controller now action
      · rw [kept] at later
        exact later.trans ((List.sublist_cons_self _ _).append_left _)
      · rw [sent, List.map_append, List.append_assoc] at later
        exact later

end Readings

/-- The totals of a journal never decrease, up to the present one. -/
structure Sorted (journal : Journal Binary64) : Prop where
  /-- Every probe was sent at a total not below that of an earlier one. -/
  sorted : (journal.first :: journal.sent).Pairwise
    fun earlier later => earlier.total ≤ later.total
  /-- No probe was sent at more than the present total. -/
  le_total : ∀ sending ∈ journal.first :: journal.sent,
    sending.total ≤ journal.total

section Order

variable {journal : Journal Binary64} {controller : Controller Binary64}
variable {history : List (Binary64 × Controller.Action Binary64)}

theorem sorted_opened (start : Binary64) : (opened start).Sorted where
  sorted := List.pairwise_singleton _ _
  le_total := by
    intro sending member
    rw [List.mem_singleton.mp member]
    exact Binary64.le_refl (by simp [opened])

theorem Sorted.entered
    (sorted : journal.Sorted)
    (controller : Controller Binary64)
    (now : Binary64)
    (action : Controller.Action Binary64)
    (total_le : ∀ total, action = .recordProgress total →
      journal.total ≤ total) :
    (journal.entered controller now action).Sorted := by
  cases action with
  | recordProgress total =>
      exact {
        sorted := sorted.sorted
        le_total := fun sending member =>
          Binary64.le_trans (sorted.le_total sending member)
            (total_le total rfl) }
  | probeSent =>
      have number : journal.total ≠ nan :=
        (ne_nan_of_le (sorted.le_total _ List.mem_cons_self)).2
      constructor
      · simp only [Journal.entered]
        rw [← List.cons_append, List.pairwise_append]
        refine ⟨sorted.sorted, List.pairwise_singleton _ _, ?_⟩
        intro earlier member later later_mem
        rw [List.mem_singleton.mp later_mem]
        exact sorted.le_total earlier member
      · simp only [Journal.entered]
        rw [← List.cons_append, List.forall_mem_append]
        exact ⟨sorted.le_total,
          List.forall_mem_singleton.mpr (Binary64.le_refl number)⟩
  | probeAnswered =>
      simp only [Journal.entered]
      split_ifs
      · exact ⟨sorted.sorted, sorted.le_total⟩
      · exact sorted

/-- Totals that never decrease keep a journal sorted. -/
theorem Sorted.after
    (sorted : journal.Sorted)
    (nondecreasing : (journal.total :: Controller.totals history).Pairwise (· ≤ ·)) :
    (journal.after controller history).Sorted := by
  induction history generalizing journal controller with
  | nil => exact sorted
  | cons step rest inductionHypothesis =>
      obtain ⟨now, action⟩ := step
      cases action with
      | recordProgress total =>
          refine inductionHypothesis
            (sorted.entered controller now (.recordProgress total) ?_)
            nondecreasing.of_cons
          rintro total ⟨⟩
          exact List.rel_of_pairwise_cons nondecreasing List.mem_cons_self
      | probeSent =>
          exact inductionHypothesis
            (sorted.entered controller now .probeSent nofun) nondecreasing
      | probeAnswered =>
          apply inductionHypothesis
            (sorted.entered controller now .probeAnswered nofun)
          simp only [Journal.entered]
          split_ifs
          · exact nondecreasing
          · exact nondecreasing

/-- If neither the clock nor the totals run backwards, the answered probe and the
pending ones are in the order of their readings and of their totals. -/
theorem Sorted.pairwise_lineUp
    {start : Binary64}
    (sorted : ((opened start).after controller history).Sorted)
    (nondecreasing : (start :: history.map Prod.fst).Pairwise (· ≤ ·)) :
    ((opened start).after controller history).lineUp.Pairwise
      fun earlier later =>
        earlier.probe.sentAt ≤ later.probe.sentAt ∧
          earlier.total ≤ later.total := by
  have readings := (opened start).sentAt_sublist controller history
  have sentAt : ((((opened start).after controller history).first ::
      ((opened start).after controller history).sent).map
        (·.probe.sentAt)).Pairwise (· ≤ ·) := by
    rw [List.map_cons, first_after]
    exact nondecreasing.sublist (readings.cons_cons start)
  exact ((List.pairwise_map.mp sentAt).and sorted.sorted).sublist
    (List.drop_sublist _ _)

end Order

end Journal

namespace Controller

/-! ## Backlogs -/

/-- Whether a report is that of a probe. -/
def Action.isProbe {α : Type} : Action α → Bool
  | .recordProgress _ => false
  | .probeSent => true
  | .probeAnswered => false

/-- A backlog is reported by probes that fill a batch, and by nothing else. -/
theorem backlogs_perform
    {α : Type}
    [Arithmetic α]
    (controller : Controller α)
    (now : α)
    (action : Action α) :
    let outcome := controller.perform now action
    outcome.events.filterMap Notice.backlog? =
      if action.isProbe = true ∧
          outcome.state.pending.length % backlogBatch = 0 then
        [(outcome.state.pending.length : α)]
      else [] := by
  intro outcome
  cases action with
  | recordProgress total =>
      rw [if_neg (fun due => nomatch due.1)]
      obtain ⟨_, reset⟩ | ⟨_, kept⟩ :=
        controller.recordProgress_cases now total
      · have outcome_eq : outcome = _ := reset
        rw [outcome_eq]
        rfl
      · have outcome_eq : outcome = _ := kept
        rw [outcome_eq]
        rfl
  | probeSent =>
      have outcome_eq : outcome = controller.probeSent now := rfl
      rw [outcome_eq, state_probeSent]
      simp only [Action.isProbe, true_and, probeSent, Outcome.events_reporting]
      split_ifs
      · rfl
      · rfl
  | probeAnswered =>
      rw [if_neg (fun due => nomatch due.1), List.filterMap_eq_nil_iff]
      intro notice member
      obtain rfl | ⟨_, _, _, _, rfl⟩ := mem_events_probeAnswered member
      · rfl
      · rfl

/-! ## One to one, in order -/

/-- Answers belong to probes one to one, in the order the probes were sent.  Take any
controller that was started and any reports at any readings, and let a journal list
the probes that were sent and the answers that found one pending.  The answered probe
and the pending ones are the last ones that were sent, so that the pending ones are
those without an answer, and the next answer belongs to the first of them; if there
is none, the answer changes nothing and is not reported to the observer.  Every probe
keeps the position of the total it was sent at.  If neither the clock nor the totals
run backwards, the answered probe and the pending ones are in the order of their
readings and of their totals, and none is ahead of the present total.  A backlog is
reported by those probes that fill another batch of 64, with the number of pending
probes. -/
theorem answers_in_send_order
    (options : Options Binary64)
    (verifyByDefault : Bool)
    (start now : Binary64)
    (controller : Controller Binary64)
    (history : List (Binary64 × Action Binary64))
    (action : Action Binary64)
    (started : Controller.start options verifyByDefault start = .ok controller) :
    let before := controller.after history
    let journal := (Journal.opened start).after controller history
    let probes := journal.sent.map Sending.probe
    let answer := before.probeAnswered now
    let outcome := before.perform now action
    before.answered :: before.pending = journal.lineUp.map Sending.probe ∧
      before.pending = probes.drop journal.arrivals.length ∧
      (before.pending ≠ [] →
        probes[journal.arrivals.length]? = some answer.state.answered ∧
          answer.state.pending = probes.drop (journal.arrivals.length + 1)) ∧
      (before.pending = [] →
        answer.state = before ∧
          ∀ notice ∈ answer.events, notice.isObserved = false) ∧
      (∀ sending ∈ journal.lineUp, sending.probe.position =
        Counting.wrapping.position sending.total) ∧
      ((start :: history.map Prod.fst).Pairwise (· ≤ ·) →
        (0 :: Controller.totals history).Pairwise (· ≤ ·) →
          journal.lineUp.Pairwise
              (fun earlier later =>
                earlier.probe.sentAt ≤ later.probe.sentAt ∧
                  earlier.total ≤ later.total) ∧
            ∀ sending ∈ journal.lineUp, sending.total ≤ journal.total) ∧
      outcome.events.filterMap Notice.backlog? =
        if action.isProbe = true ∧ outcome.state.pending.length % 64 = 0 then
          [(outcome.state.pending.length : Binary64)]
        else [] := by
  intro before journal probes answer outcome
  have describes : journal.Describes before :=
    (Journal.describes_of_start started).after history
  obtain ⟨config, rfl, _, counting⟩ := start_ok started
  refine ⟨describes.lineUp, describes.pending_eq, ?_, ?_, ?_, ?_, ?_⟩
  · exact fun waiting => describes.answered_probeAnswered waiting now
  · intro noProbe
    simp only [answer, probeAnswered_of_stray noProbe]
    exact ⟨rfl, List.forall_mem_singleton.mpr rfl⟩
  · intro sending member
    have position := describes.positions sending (List.mem_of_mem_drop member)
    rw [config_after] at position
    rw [position, ← counting]
    rfl
  · intro clock totals
    have sorted : journal.Sorted :=
      (Journal.sorted_opened start).after totals
    exact ⟨sorted.pairwise_lineUp clock,
      fun sending member => sorted.le_total sending (List.mem_of_mem_drop member)⟩
  · exact before.backlogs_perform now action

/-- An answer that nothing waits for, a burst of probes, probes on both sides of the
point where the ring wraps, and an idle period. -/
def aroundTheRing : List (Binary64 × Action Binary64) :=
  (0, .probeAnswered) :: List.replicate 62 (0, .probeSent) ++
    [(finite 5, .recordProgress (finite 4294967290)),
      (finite 6, .probeSent),
      (finite 30, .probeAnswered),
      (finite 40, .recordProgress (finite 4294967390)),
      (finite 41, .probeSent),
      (finite 500, .recordProgress (finite 4294967390))]

theorem answers_in_send_order_aroundTheRing :
    let before := byDefault.after aroundTheRing
    let journal := (Journal.opened 0).after byDefault aroundTheRing
    before.base = none ∧
      (journal.sent.map Sending.probe)[1]? =
        some (before.probeAnswered (finite 501)).state.answered ∧
      before.pending = (journal.sent.map Sending.probe).drop 1 ∧
      journal.lineUp.Pairwise (fun earlier later =>
        earlier.probe.sentAt ≤ later.probe.sentAt ∧
          earlier.total ≤ later.total) ∧
      (journal.lineUp.drop 62).map (·.probe.position) =
        [finite 4294967290, finite 94] ∧
      (before.perform (finite 501) .probeSent).events.filterMap
        Notice.backlog? = [64] := by
  intro before journal
  obtain ⟨_, pending_eq, next, _, _, inOrder, backlog⟩ :=
    answers_in_send_order ⟨none, none⟩ true 0 (finite 501) byDefault
      aroundTheRing .probeSent start_byDefault
  have one : journal.arrivals.length = 1 := by decide +kernel
  have waiting : before.pending.length = 63 := by decide +kernel
  have clock : (0 :: aroundTheRing.map Prod.fst).Pairwise (· ≤ ·) := by
    decide +kernel
  have totals : (0 :: Controller.totals aroundTheRing).Pairwise (· ≤ ·) := by
    decide +kernel
  have answered := (next (List.ne_nil_of_length_eq_add_one waiting)).1
  rw [one] at pending_eq answered
  refine ⟨by decide +kernel, answered, pending_eq, (inOrder clock totals).1,
    by decide +kernel, ?_⟩
  rw [backlog, if_pos (by decide +kernel)]
  decide +kernel

end Controller
end Backpressure
