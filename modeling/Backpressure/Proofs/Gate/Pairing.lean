import Backpressure.Proofs.Gate.Bytes

/-!
# Pairing answers with probes

Answers carry no mark of the probe that they belong to: each one is paired with the
oldest pending probe.  A controller learns of a probe before the link gets it.  So if
the link fails at a probe, this probe stays pending although no answer to it will come,
and from then on every answer is paired with an older probe than the one it belongs to.
-/

namespace Backpressure

/-- Whether a fault is that of a probe. -/
def Fault.ofProbe {α : Type} : Fault α → Bool
  | .probeFailed => true
  | .windowRefused _ | .lowestBelowBase _ _ | .congestedBelowBase _ _
  | .forwardFailed => false

namespace Gate

open Binary64

/-! ## Probes that were made -/

section Steps

variable {α : Type}

/-- A probe that a gate has made. -/
structure Probing (α : Type) where
  /-- What the controller keeps of it. -/
  probe : Probe α
  /-- Whether the link took it, so that an answer to it can come. -/
  written : Bool
  deriving DecidableEq

/-- The probes that the link took, in order. -/
def written (probings : List (Probing α)) : List (Probe α) :=
  (probings.filter Probing.written).map Probing.probe

/-- Whether an event is that of a probe. -/
def Event.isProbe : Event α → Bool
  | .probed => true
  | .notice _ | .forwarded _ | .dropped _ | .retryPlanned _ _ | .timer _ => false

/-- The probe that an operation has made, if it has made one. -/
def probing? (result : Result α) : Option (Probing α) :=
  if result.events.any Event.isProbe then
    result.state.controller.pending.getLast?.map fun probe =>
      ⟨probe, !result.fault.any Fault.ofProbe⟩
  else none

@[simp] theorem any_isProbe_map_notice (notices : List (Notice α)) :
    (notices.map Event.notice).any Event.isProbe = false := by
  simp [Event.isProbe]

@[simp] theorem any_isProbe_map_timer (events : List (Timers.Event α)) :
    (events.map Event.timer).any Event.isProbe = false := by
  simp [Event.isProbe]

/-- An operation that makes no probe and leaves the pending ones alone. -/
structure Quiet (controller : Controller α) (result : Result α) : Prop where
  /-- No event is that of a probe. -/
  events : result.events.any Event.isProbe = false
  /-- Nor is the fault, if there is one. -/
  fault : result.fault.any Fault.ofProbe = false
  /-- The same probes are pending. -/
  pending : result.state.controller.pending = controller.pending
  /-- No answer was taken in. -/
  answered : result.state.controller.answered = controller.answered

/-- An operation that makes at most one probe, which joins the pending ones. -/
structure Notes (now : α) (controller : Controller α) (result : Result α) : Prop where
  /-- The probe is the last one of those pending. -/
  pending : result.state.controller.pending =
    controller.pending ++ (probing? result).toList.map Probing.probe
  /-- No answer was taken in. -/
  answered : result.state.controller.answered = controller.answered
  /-- The probe was sent at the reading. -/
  sentAt : ∀ probing, probing? result = some probing → probing.probe.sentAt = now

/-- A quiet operation makes no probe. -/
theorem Quiet.notes
    {controller : Controller α}
    {result : Result α}
    (quiet : Quiet controller result)
    (now : α) :
    Notes now controller result := by
  have none_made : probing? result = none := by
    rw [probing?, quiet.events, if_neg Bool.false_ne_true]
  refine ⟨?_, quiet.answered, ?_⟩
  · rw [none_made, quiet.pending]
    exact (List.append_nil _).symm
  · simp [none_made]

section Sequences

variable {now : α} {controller : Controller α} {first : Result α}
  {second : Gate α → Result α}

theorem Quiet.andThen
    (quiet : Quiet controller first)
    (next : Quiet first.state.controller (second first.state)) :
    Quiet controller (first.andThen second) := by
  cases ended : first.fault with
  | some reason => rwa [Outcome.andThen_of_faulty ended]
  | none =>
      rw [Outcome.andThen_of_faultless ended]
      refine ⟨?_, next.fault, ?_, ?_⟩
      · rw [List.any_append, quiet.events, next.events, Bool.or_false]
      · exact next.pending.trans quiet.pending
      · exact next.answered.trans quiet.answered

/-- What is quiet before a probe does not matter to it. -/
theorem Quiet.andThen_notes
    (quiet : Quiet controller first)
    (next : Notes now first.state.controller (second first.state)) :
    Notes now controller (first.andThen second) := by
  cases ended : first.fault with
  | some reason =>
      rw [Outcome.andThen_of_faulty ended]
      exact quiet.notes now
  | none =>
      have same : probing? (first.andThen second) = probing? (second first.state) := by
        rw [Outcome.andThen_of_faultless ended, probing?, List.any_append,
          quiet.events, Bool.false_or]
        rfl
      have state_eq := Outcome.state_andThen_of_faultless ended second
      refine ⟨?_, ?_, ?_⟩
      · rw [same, state_eq, ← quiet.pending]
        exact next.pending
      · rw [state_eq]
        exact next.answered.trans quiet.answered
      · rw [same]
        exact next.sentAt

/-- Nor does what is quiet after it. -/
theorem Notes.andThen_quiet
    (notes : Notes now controller first)
    (next : Quiet first.state.controller (second first.state)) :
    Notes now controller (first.andThen second) := by
  cases ended : first.fault with
  | some reason => rwa [Outcome.andThen_of_faulty ended]
  | none =>
      have same : probing? (first.andThen second) = probing? first := by
        rw [Outcome.andThen_of_faultless ended, probing?, probing?, List.any_append,
          next.events, Bool.or_false, next.pending, next.fault, ended]
        rfl
      have state_eq := Outcome.state_andThen_of_faultless ended second
      refine ⟨?_, ?_, ?_⟩
      · rw [same, state_eq, next.pending]
        exact notes.pending
      · rw [state_eq]
        exact next.answered.trans notes.answered
      · rw [same]
        exact notes.sentAt

end Sequences

/-! ## Operations -/

theorem quiet_done (gate : Gate α) : Quiet gate.controller (.done gate) :=
  ⟨rfl, rfl, rfl, rfl⟩

theorem quiet_resetRetry (gate : Gate α) : Quiet gate.controller gate.resetRetry where
  events := any_isProbe_map_timer _
  fault := by rw [fault_resetRetry, Option.any_none]
  pending := rfl
  answered := rfl

theorem quiet_forward (chunk : Chunk) (gate : Gate α) :
    Quiet gate.controller (gate.forward chunk) := by
  unfold forward
  split
  · split <;> exact ⟨rfl, rfl, rfl, rfl⟩
  · exact ⟨rfl, rfl, rfl, rfl⟩

variable [Arithmetic α]

theorem quiet_report (now : α) (gate : Gate α) :
    Quiet gate.controller (gate.report now) where
  events := any_isProbe_map_notice _
  fault := by rw [fault_report, Option.any_none]
  pending := by simp
  answered := by simp

theorem quiet_handOver
    (now : α)
    (chunks : List Chunk)
    (gate : Gate α) :
    Quiet gate.controller (gate.handOver now chunks) := by
  induction chunks generalizing gate with
  | nil => exact quiet_done gate
  | cons chunk rest inductionHypothesis =>
      unfold handOver
      split
      · exact quiet_done gate
      · have forwarded : Quiet gate.controller ((gate.take chunk rest).forward chunk) :=
          quiet_forward chunk (gate.take chunk rest)
        have passed : Quiet gate.controller (gate.pass now chunk rest) :=
          forwarded.andThen (quiet_report now _)
        exact passed.andThen (inductionHypothesis _)

theorem quiet_settle (clock now : α) (gate : Gate α) :
    Quiet gate.controller (gate.settle clock now) where
  events := by
    unfold settle scheduleRetry
    split
    · split
      · exact any_isProbe_map_timer _
      · rfl
    · split <;> rfl
  fault := by rw [fault_settle, Option.any_none]
  pending := by rw [state_settle]
  answered := by rw [state_settle]

/-- The controller keeps a probe whether or not the link takes it. -/
theorem probing?_probe (now : α) (gate : Gate α) :
    probing? (gate.probe now) =
      some ⟨gate.controller.probeNow now, !gate.link.probeFails⟩ := by
  have noted : (gate.withController (gate.controller.probeSent now)).fault = none :=
    rfl
  unfold probing?
  rw [state_probe, Controller.state_probeSent, List.getLast?_append,
    List.getLast?_singleton]
  unfold probe
  rw [Outcome.andThen_of_faultless noted]
  by_cases fails : gate.link.probeFails
  all_goals
    simp [withController, Outcome.within, Event.isProbe, Fault.ofProbe, fails,
      Outcome.failed, Outcome.done]

theorem notes_probe (now : α) (gate : Gate α) :
    Notes now gate.controller (gate.probe now) where
  pending := by
    rw [probing?_probe, state_probe]
    rfl
  answered := by
    rw [state_probe]
    rfl
  sentAt probing made := by
    rw [probing?_probe] at made
    rw [← Option.some.inj made]
    rfl

/-- A flush makes at most one probe, wherever it ends. -/
theorem notes_flush (clock : α) (gate : Gate α) :
    Notes (gate.reading clock) gate.controller (gate.flush clock) := by
  unfold flush
  apply (quiet_report _ gate).andThen_notes
  apply (quiet_handOver _ _ _).andThen_notes
  apply Notes.andThen_quiet _ (quiet_settle clock _ _)
  split
  · exact notes_probe _ _
  · exact (quiet_done _).notes _

/-- The controller when the answer was taken in, if an action is one. -/
def heard (clock : α) (gate : Gate α) : Action α → Controller α
  | .probeAnswered => (gate.answeredAt clock).controller
  | .dataIn _ | .close | .connect | .retry => gate.controller

/-- An action makes at most one probe, after the answer was taken in if it is one. -/
theorem notes_perform
    {gate : Gate α}
    (ready : gate.retry.Ready)
    (clock : α)
    (action : Action α) :
    Notes (gate.reading clock) (gate.heard clock action)
      (gate.perform clock action) := by
  cases action with
  | dataIn chunk => exact notes_flush clock (gate.enqueue chunk)
  | probeAnswered =>
      have quiet : Quiet (gate.answeredAt clock).controller (gate.withController
          (gate.controller.probeAnswered (gate.reading clock))) := by
        refine ⟨any_isProbe_map_notice _, ?_, rfl, rfl⟩
        -- An answer can fail, but only at the order of the measured round trips.
        rw [withController, Outcome.fault_within]
        cases answered :
            (gate.controller.probeAnswered (gate.reading clock)).fault with
        | none => rfl
        | some reason =>
            obtain ⟨_, _, rfl | rfl⟩ := Controller.probeAnswered_of_faulty answered
            all_goals rfl
      exact quiet.andThen_notes (notes_flush clock (gate.answeredAt clock))
  | close => exact gate.quiet_resetRetry.notes _
  | connect => exact (quiet_done gate.connect).notes _
  | retry =>
      unfold perform
      cases ready with
      | inl idle =>
          rw [idle.armed]
          exact gate.quiet_done.notes _
      | inr set =>
          obtain ⟨timer, only, _⟩ := set.armed
          rw [only]
          change Notes _ gate.controller (gate.expire timer clock)
          let ringing : Gate α := { gate with retry := gate.retry.ring timer }
          rw [expire_eq_of_setOnce set]
          exact ringing.quiet_resetRetry.andThen_notes
            (notes_flush clock (gate.rung timer))

/-- An answer is paired with the oldest pending probe. -/
theorem answered_perform_probeAnswered
    {gate : Gate α}
    (ready : gate.retry.Ready)
    (clock : α) :
    (gate.perform clock .probeAnswered).state.controller.answered =
      gate.controller.pending.head?.getD gate.controller.answered := by
  rw [(notes_perform ready clock .probeAnswered).answered]
  simp [heard, answeredAt]

/-- If the pending probes are those that were made without some from the front, an
answer is paired with the first one behind these. -/
theorem map_getElem?_eq_answered
    {gate : Gate α}
    (ready : gate.retry.Ready)
    {made : List (Probing α)}
    {answers : ℕ}
    (pending : gate.controller.pending = (made.map Probing.probe).drop answers)
    (waiting : answers < made.length)
    (clock : α) :
    (made[answers]?).map Probing.probe =
      some (gate.perform clock .probeAnswered).state.controller.answered := by
  have oldest : gate.controller.pending.head? =
      (made[answers]?).map Probing.probe := by
    rw [pending, List.head?_drop, List.getElem?_map]
  rw [answered_perform_probeAnswered ready, oldest,
    List.getElem?_eq_getElem waiting]
  rfl

/-! ## Histories -/

theorem outcomes_append
    (gate : Gate α)
    (first second : List (α × Action α)) :
    gate.outcomes (first ++ second) =
      gate.outcomes first ++ (gate.after first).outcomes second := by
  induction first generalizing gate with
  | nil => rfl
  | cons step rest inductionHypothesis =>
      rw [List.cons_append, outcomes, outcomes, inductionHypothesis]
      rfl

/-- The probes that are made in a history, in order. -/
def probings (gate : Gate α) (history : List (α × Action α)) : List (Probing α) :=
  (gate.outcomes history).filterMap probing?

theorem probings_append_singleton
    (gate : Gate α)
    (history : List (α × Action α))
    (step : α × Action α) :
    gate.probings (history ++ [step]) =
      gate.probings history ++
        (probing? ((gate.after history).perform step.1 step.2)).toList := by
  unfold probings
  rw [outcomes_append, List.filterMap_append]
  cases made : probing? ((gate.after history).perform step.1 step.2) <;>
    simp [outcomes, made]

end Steps

theorem length_written {α : Type} (probings : List (Probing α)) :
    (written probings).length = probings.countP Probing.written := by
  rw [written, List.length_map, List.countP_eq_length_filter]

/-- What the link took of some probes are all of them exactly if it did not fail at
any. -/
theorem drop_map_probe_eq_drop_written_iff
    {α : Type}
    {probings : List (Probing α)}
    {number : ℕ}
    (few : number ≤ (written probings).length) :
    (probings.map Probing.probe).drop number = (written probings).drop number ↔
      ∀ probing ∈ probings, probing.written = true := by
  constructor
  · intro same
    have lengths := congrArg List.length same
    have at_most : probings.countP Probing.written ≤ probings.length :=
      List.countP_le_length
    rw [length_written] at few
    rw [List.length_drop, List.length_drop, List.length_map, length_written] at lengths
    apply List.countP_eq_length.mp
    omega
  · intro all
    rw [written, List.filter_eq_self.mpr all]

/-- The item of a number among those that have a property, counted from zero. -/
theorem exists_place_of_lt_countP
    {Item : Type}
    {property : Item → Bool}
    {items : List Item}
    {number : ℕ}
    (enough : number < items.countP property) :
    ∃ place item, items[place]? = some item ∧ property item = true ∧
      (items.take place).countP property = number := by
  induction items generalizing number with
  | nil => contradiction
  | cons first rest inductionHypothesis =>
      by_cases holds : property first
      · cases number with
        | zero => exact ⟨0, first, rfl, holds, rfl⟩
        | succ number =>
            rw [List.countP_cons_of_pos holds, Nat.succ_lt_succ_iff] at enough
            obtain ⟨place, item, at_place, has, count⟩ := inductionHypothesis enough
            refine ⟨place + 1, item, at_place, has, ?_⟩
            rw [List.take_succ_cons, List.countP_cons_of_pos holds, count]
      · rw [List.countP_cons_of_neg holds] at enough
        obtain ⟨place, item, at_place, has, count⟩ := inductionHypothesis enough
        refine ⟨place + 1, item, at_place, has, ?_⟩
        rw [List.take_succ_cons, List.countP_cons_of_neg holds, count]

/-- The place of an item is told by the items before it that have a property and by
those that do not. -/
theorem countP_take_add_countP_not_take
    {Item : Type}
    {items : List Item}
    {place : ℕ}
    {item : Item}
    (at_place : items[place]? = some item)
    (property : Item → Bool) :
    (items.take place).countP property +
        (items.take place).countP (fun item => !property item) = place := by
  obtain ⟨before, _⟩ := List.getElem?_eq_some_iff.mp at_place
  have parts :=
    List.length_eq_countP_add_countP property (l := items.take place)
  rw [List.length_take_of_le before.le] at parts
  simpa using parts.symm

theorem answersDuring_append_singleton
    (history : List (Binary64 × Action Binary64))
    (step : Binary64 × Action Binary64) :
    answersDuring (history ++ [step]) = answersDuring history + step.2.answers := by
  simp [answersDuring]

/-- Whether the answers of a history can be those of a peer that answers every probe
that was written once: there are never more of them than probes that were written
before. -/
def Answerable
    (gate : Gate Binary64)
    (history : List (Binary64 × Action Binary64)) : Prop :=
  ∀ count < history.length,
    answersDuring (history.take (count + 1)) ≤
      (written (gate.probings (history.take count))).length

instance decidableAnswerable
    (gate : Gate Binary64)
    (history : List (Binary64 × Action Binary64)) :
    Decidable (gate.Answerable history) :=
  inferInstanceAs (Decidable (∀ count < history.length, _))

theorem answerable_append_singleton
    {gate : Gate Binary64}
    {history : List (Binary64 × Action Binary64)}
    {step : Binary64 × Action Binary64} :
    gate.Answerable (history ++ [step]) ↔
      gate.Answerable history ∧
        answersDuring history + step.2.answers ≤
          (written (gate.probings history)).length := by
  have length_eq : (history ++ [step]).length = history.length + 1 := by simp
  have last : (history ++ [step]).take (history.length + 1) = history ++ [step] := by
    rw [← length_eq, List.take_length]
  unfold Answerable
  rw [length_eq, Nat.forall_lt_succ_right, last, List.take_left,
    answersDuring_append_singleton]
  apply and_congr_left'
  apply forall₂_congr
  intro count before
  rw [List.take_append_of_le_length before, List.take_append_of_le_length before.le]

/-- There are never more answers than probes that were written. -/
theorem Answerable.answersDuring_le
    {gate : Gate Binary64}
    {history : List (Binary64 × Action Binary64)}
    (answerable : gate.Answerable history) :
    answersDuring history ≤ (written (gate.probings history)).length := by
  induction history using List.reverseRecOn with
  | nil => exact Nat.zero_le _
  | append_singleton history step _ =>
      obtain ⟨_, enough⟩ := answerable_append_singleton.mp answerable
      have more : (written (gate.probings history)).length ≤
          (written (gate.probings (history ++ [step]))).length := by
        simp [probings_append_singleton, written]
      rw [answersDuring_append_singleton]
      exact enough.trans more

theorem pending_heard
    (clock : Binary64)
    (gate : Gate Binary64)
    (action : Action Binary64) :
    (gate.heard clock action).pending =
      gate.controller.pending.drop action.answers := by
  cases action with
  | probeAnswered => simp [heard, answeredAt, Action.answers]
  | dataIn chunk => rfl
  | close => rfl
  | connect => rfl
  | retry => rfl

/-- The pending probes are those that were made, without as many from the front as there
were answers. -/
theorem pending_after
    {gate : Gate Binary64}
    (ready : gate.retry.Ready)
    (none_pending : gate.controller.pending = [])
    {history : List (Binary64 × Action Binary64)}
    (answerable : gate.Answerable history) :
    (gate.after history).controller.pending =
      ((gate.probings history).map Probing.probe).drop (answersDuring history) := by
  -- From the last action back, as every action adds to the probes that were made by
  -- then and an answer must find one of them.
  induction history using List.reverseRecOn with
  | nil => exact none_pending
  | append_singleton history step inductionHypothesis =>
      obtain ⟨earlier, enough⟩ := answerable_append_singleton.mp answerable
      have notes := notes_perform (ready_after ready history) step.1 step.2
      have made_enough : answersDuring history + step.2.answers ≤
          ((gate.probings history).map Probing.probe).length := by
        rw [length_written] at enough
        rw [List.length_map]
        exact enough.trans List.countP_le_length
      rw [after_append, after_cons, after_nil, notes.pending, pending_heard,
        inductionHypothesis earlier, List.drop_drop, probings_append_singleton,
        List.map_append, answersDuring_append_singleton,
        List.drop_append_of_le_length made_enough]

/-- A probe at which the link fails stays pending and shifts the pairing of all later
answers.  Take any controller that was started, any link, and any actions at any
readings, such that the peer answers every probe that was written once and in order.
The pending probes are then those that were made, written or not, without as many from
the front as there were answers; they are those that wait for an answer exactly as long
as the link has not failed at any.  The next answer is paired with a probe that was made
as many places before the one it belongs to as the link failed at probes before that
one.  Every probe was sent at the reading of its action. -/
theorem failed_probe_shifts_answers
    (options : Options Binary64)
    (verifyByDefault : Bool)
    (start : Binary64)
    (controller : Controller Binary64)
    (link : Link)
    (reading : Binary64 → Binary64)
    (history : List (Binary64 × Action Binary64))
    (started : Controller.start options verifyByDefault start = .ok controller)
    (answerable : (fresh controller link reading).Answerable history) :
    let begun := fresh controller link reading
    let gate := begun.after history
    let made := begun.probings history
    let answers := answersDuring history
    gate.controller.pending = (made.map Probing.probe).drop answers ∧
      (gate.controller.pending = (written made).drop answers ↔
        ∀ probing ∈ made, probing.written = true) ∧
      (answers < (written made).length →
        ∃ place probing,
          made[place]? = some probing ∧ probing.written = true ∧
            (written (made.take place)).length = answers ∧
            ∀ clock,
              let failed := (made.take place).countP fun earlier => !earlier.written
              let answered :=
                (gate.perform clock .probeAnswered).state.controller.answered
              failed ≤ place ∧
                (made[place - failed]?).map Probing.probe = some answered) ∧
      ∀ clock action probing,
        probing? (gate.perform clock action) = some probing →
          probing.probe.sentAt = reading clock := by
  intro begun gate made answers
  have ready : gate.retry.Ready := ready_after (.inl Alarm.idle_unused) history
  have few : answers ≤ (written made).length := answerable.answersDuring_le
  have pending : gate.controller.pending = (made.map Probing.probe).drop answers := by
    obtain ⟨config, rfl, _⟩ := Controller.start_ok started
    exact pending_after (.inl Alarm.idle_unused) rfl answerable
  refine ⟨pending, ?_, ?_, ?_⟩
  · rw [pending]
    exact drop_map_probe_eq_drop_written_iff few
  · intro waiting
    rw [length_written] at waiting
    obtain ⟨place, probing, at_place, taken, number⟩ :=
      exists_place_of_lt_countP waiting
    refine ⟨place, probing, at_place, taken, ?_, ?_⟩
    · rw [length_written, number]
    · intro clock failed answered
      have parts := countP_take_add_countP_not_take at_place Probing.written
      have paired : place - failed = answers := by omega
      refine ⟨by omega, ?_⟩
      rw [paired]
      exact map_getElem?_eq_answered ready pending
        (waiting.trans_le List.countP_le_length) clock
  · intro clock action probing probed
    have drives : Drives (fun _ => True) reading begun := ⟨trivial, rfl⟩
    have kept : ∀ step ∈ history, KeptAt (fun _ => True) (reading step.1) :=
      fun _ _ _ _ _ => trivial
    have clocks : gate.reading = reading := (drives.after kept).reading_eq
    have sentAt := (notes_perform ready clock action).sentAt probing probed
    rwa [clocks] at sentAt

/-- A link that fails at its first probe. -/
def firstProbeFails : Link :=
  ⟨true, [], [true]⟩

/-- A chunk with a probe, and another one of each fifty milliseconds later. -/
def twoProbes : List (Binary64 × Action Binary64) :=
  [(0, .dataIn ⟨Array.replicate 100 0⟩),
    (finite 50, .dataIn ⟨Array.replicate 200 0⟩)]

/-- The gate after them, with a link that fails at the first probe. -/
def waitingSecond : Gate Binary64 :=
  (fresh .byDefault firstProbeFails id).after twoProbes

/-- Its probes. -/
def madeTwo : List (Probing Binary64) :=
  (fresh .byDefault firstProbeFails id).probings twoProbes

/-- Its controller when the answer to the second probe has arrived. -/
def answeredSecond : Controller Binary64 :=
  (waitingSecond.perform (finite 70) .probeAnswered).state.controller

theorem failed_probe_shifts_answers_firstProbeFails :
    (fresh .byDefault firstProbeFails id).Answerable twoProbes ∧
      waitingSecond.controller.pending = madeTwo.map Probing.probe ∧
      waitingSecond.controller.pending ≠ (written madeTwo).drop 0 ∧
      ∃ place probing,
        madeTwo[place]? = some probing ∧ probing.written = true ∧
          probing.probe.sentAt = finite 50 ∧
          (madeTwo[place - 1]?).map Probing.probe = some answeredSecond.answered ∧
          answeredSecond.answered.sentAt = 0 := by
  have only_second : ∀ place : ℕ, [false, true][place]? = some true → place = 1 := by
    intro place flag
    match place with
    | 0 => simp at flag
    | 1 => rfl
    | _ + 2 => simp at flag
  have answerable : (fresh .byDefault firstProbeFails id).Answerable twoProbes := by
    decide +kernel
  have flags : madeTwo.map Probing.written = [false, true] := by decide +kernel
  have waiting : 0 < (written madeTwo).length := by decide +kernel
  have one_failed : (madeTwo.take 1).countP (fun earlier => !earlier.written) = 1 := by
    decide +kernel
  obtain ⟨pending, all_written, answer, _⟩ := failed_probe_shifts_answers ⟨none, none⟩
    true 0 .byDefault firstProbeFails id twoProbes Controller.start_byDefault answerable
  obtain ⟨place, probing, at_place, taken, _, paired⟩ := answer waiting
  have place_eq : place = 1 := by
    apply only_second
    rw [← flags, List.getElem?_map, ← taken]
    exact congrArg (Option.map Probing.written) at_place
  subst place_eq
  have answered_eq : (madeTwo[0]?).map Probing.probe = some answeredSecond.answered := by
    have shifted := (paired (finite 70)).2
    change (madeTwo[1 - (madeTwo.take 1).countP fun earlier => !earlier.written]?).map
      Probing.probe = some answeredSecond.answered at shifted
    rwa [one_failed] at shifted
  have sentAt : (madeTwo[1]?).map (fun probing => probing.probe.sentAt) =
      some (finite 50) := by
    decide +kernel
  have drop_nothing : waitingSecond.controller.pending =
      (madeTwo.map Probing.probe).drop 0 := pending
  have some_failed : ¬∀ probing ∈ madeTwo, probing.written = true := by decide +kernel
  refine ⟨answerable, drop_nothing, fun same => some_failed (all_written.mp same), 1,
    probing, at_place, taken, ?_, answered_eq, by decide +kernel⟩
  change madeTwo[1]? = some probing at at_place
  rw [at_place] at sentAt
  exact Option.some.inj sentAt

/-- A probe at which the link fails is not forgotten, and an answer is not always paired
with the probe it belongs to. -/
theorem pairing_survives_failed_probe_refuted :
    ¬∀ (link : Link) (history : List (Binary64 × Action Binary64)),
        let begun := fresh .byDefault link id
        let gate := begun.after history
        let waiting := (written (begun.probings history)).drop (answersDuring history)
        begun.Answerable history →
          gate.controller.pending = waiting ∧
            ∀ clock, waiting ≠ [] →
              waiting.head? =
                some (gate.perform clock .probeAnswered).state.controller.answered := by
  intro paired
  have answerable : (fresh .byDefault firstProbeFails id).Answerable twoProbes := by
    decide +kernel
  have pending : waitingSecond.controller.pending.length = 2 := by decide +kernel
  have waiting : ((written madeTwo).drop 0).length = 1 := by decide +kernel
  have same : waitingSecond.controller.pending = (written madeTwo).drop 0 :=
    (paired firstProbeFails twoProbes answerable).1
  rw [same, waiting] at pending
  contradiction

end Gate
end Backpressure
