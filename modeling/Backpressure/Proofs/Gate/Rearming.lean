import Backpressure.Proofs.Controller.Waiting
import Backpressure.Proofs.Gate.Answers
import Backpressure.Proofs.Gate.Faults
import Backpressure.Proofs.Gate.Retry

/-!
# When the next attempt is due

An attempt that leaves chunks queued sets the alarm by the wait that is estimated then, unless
the alarm runs already.  A running alarm is left alone, even if the window is going to have
room earlier than was estimated when it was set.  So its timer is due in time as long as
there is no news for the estimate: no answer, no hand-over and no idle reset.
-/

namespace Backpressure
namespace Gate

open Alarm Binary64

/-! ## Setting the alarm -/

section Setting

variable {α : Type}

/-- Whether an action makes a gate attempt to hand over chunks. -/
def Action.Attempts (gate : Gate α) : Action α → Prop
  | .dataIn _ | .probeAnswered => True
  | .close | .connect => False
  | .retry => gate.retry.timers.armed ≠ []

/-- Whether the attempt of an action finds the alarm stopped, as it is if it has just
rung. -/
def Action.findsStopped (gate : Gate α) : Action α → Bool
  | .retry => true
  | .dataIn _ | .probeAnswered | .close | .connect => !gate.retry.running

theorem silenced_append
    (history : List (α × Action α))
    (step : α × Action α) :
    silenced (history ++ [step]) = step.2.silences (silenced history) :=
  List.foldl_concat ..

/-- A running alarm belongs to queued chunks of a gate that is not silent. -/
theorem Watches.of_running
    {gate : Gate α}
    {silent : Bool}
    (watches : Watches silent gate)
    (running : gate.retry.running = true) :
    silent = false ∧ gate.queue ≠ [] := by
  cases silent with
  | true =>
      rw [watches.running] at running
      contradiction
  | false =>
      refine ⟨rfl, fun empty => ?_⟩
      rw [(watches.idle empty).running] at running
      contradiction

theorem running_of_not_findsStopped
    {gate : Gate α}
    {action : Action α}
    (finds : action.findsStopped gate = false) :
    gate.retry.running = true := by
  cases action with
  | retry => contradiction
  | _ => simpa [Action.findsStopped] using finds

variable [Arithmetic α]

/-- One timer is armed, and it is due after the delay that is estimated at a reading. -/
def SetAt (clock now : α) (gate : Gate α) : Prop :=
  ∃ timer, gate.retry.timers.armed = [timer] ∧ timer.due = clock + gate.retryDelay now

variable {gate : Gate α} {clock : α}

theorem retry_settle
    {now : α}
    (ready : gate.retry.Ready)
    (queued : (gate.settle clock now).state.queue ≠ []) :
    if gate.retry.running then (gate.settle clock now).state.retry = gate.retry
    else (gate.settle clock now).state.SetAt clock now := by
  have chunks : ¬gate.queue.isEmpty = true := by
    rw [state_settle] at queued
    rwa [List.isEmpty_iff]
  unfold settle scheduleRetry
  rw [if_neg chunks]
  cases ready with
  | inl idle =>
      have stopped : ¬gate.retry.running = true := by
        rw [idle.running]
        exact Bool.false_ne_true
      rw [if_neg stopped, if_neg stopped]
      refine ⟨⟨gate.retry.timers.issued, clock + gate.retryDelay now⟩, ?_, rfl⟩
      change (gate.retry.timers.arm (clock + gate.retryDelay now)).armed = _
      rw [Timers.armed_arm, idle.armed, List.nil_append]
  | inr set =>
      rw [if_pos set.running, if_pos set.running]
      rfl

theorem retry_flush
    (ready : gate.retry.Ready)
    (faultless : (gate.flush clock).fault = none)
    (queued : (gate.flush clock).state.queue ≠ []) :
    if gate.retry.running then (gate.flush clock).state.retry = gate.retry
    else (gate.flush clock).state.SetAt clock (gate.reading clock) := by
  have same := retry_relieved (gate.reading clock) gate
  obtain ⟨_, ⟨_, state_eq⟩ | ⟨_, state_eq⟩⟩ := flush_of_faultless rfl faultless
  · rw [state_eq] at queued ⊢
    rw [← same] at ready ⊢
    exact retry_settle ready queued
  · have probed : ((gate.relieved (gate.reading clock)).probe
        (gate.reading clock)).state.retry = gate.retry := by
      rw [state_probe]
      exact same
    rw [state_eq] at queued ⊢
    rw [← probed] at ready ⊢
    exact retry_settle ready queued

/-- An attempt that leaves chunks queued sets the alarm if it finds it stopped, and leaves
it alone otherwise. -/
theorem retry_perform
    {silent : Bool}
    (watches : Watches silent gate)
    {action : Action α}
    (attempts : action.Attempts gate)
    (faultless : (gate.perform clock action).fault = none)
    (queued : (gate.perform clock action).state.queue ≠ []) :
    if action.findsStopped gate
    then (gate.perform clock action).state.SetAt clock (gate.reading clock)
    else (gate.perform clock action).state.retry = gate.retry := by
  have flushed (entry : Gate α)
      (sameRetry : entry.retry = gate.retry)
      (sameReading : entry.reading = gate.reading)
      (flushFaultless : (entry.flush clock).fault = none)
      (flushQueued : (entry.flush clock).state.queue ≠ []) :
      if !gate.retry.running then (entry.flush clock).state.SetAt clock (gate.reading clock)
      else (entry.flush clock).state.retry = gate.retry := by
    have settled := retry_flush (sameRetry ▸ watches.ready) flushFaultless flushQueued
    rw [sameRetry, sameReading] at settled
    cases running : gate.retry.running with
    | false =>
        rw [running] at settled
        exact settled
    | true =>
        rw [running] at settled
        exact settled
  cases action with
  | dataIn chunk => exact flushed (gate.enqueue chunk) rfl rfl faultless queued
  | probeAnswered =>
      unfold perform Gate.probeAnswered at faultless queued ⊢
      rw [Outcome.fault_andThen_eq_none_iff] at faultless
      rw [Outcome.state_andThen_of_faultless faultless.1] at queued ⊢
      exact flushed (gate.answeredAt clock) rfl rfl faultless.2 queued
  | close => exact attempts.elim
  | connect => exact attempts.elim
  | retry =>
      unfold perform at faultless queued ⊢
      cases watches.ready with
      | inl idle => exact absurd idle.armed attempts
      | inr set =>
          obtain ⟨timer, only, _⟩ := set.armed
          obtain ⟨state_eq, fault_eq⟩ := expire_of_setOnce set timer clock
          rw [only] at faultless queued ⊢
          change (gate.expire timer clock).fault = none at faultless
          change (gate.expire timer clock).state.queue ≠ [] at queued
          change (gate.expire timer clock).state.SetAt clock (gate.reading clock)
          rw [fault_eq] at faultless
          rw [state_eq] at queued ⊢
          exact retry_flush (.inl (idle_reset_ring only (Fault α))) faultless queued

/-- An action that leaves chunks queued and does not silence the gate either sets the alarm
or leaves it alone, and then chunks were queued before. -/
theorem set_or_kept
    {silent : Bool}
    (watches : Watches silent gate)
    {action : Action α}
    (faultless : (gate.perform clock action).fault = none)
    (loud : action.silences silent = false)
    (queued : (gate.perform clock action).state.queue ≠ []) :
    (action.Attempts gate ∧ action.findsStopped gate = true ∧
        (gate.perform clock action).state.SetAt clock (gate.reading clock)) ∨
      ((gate.perform clock action).state.retry = gate.retry ∧
        silent = false ∧ gate.queue ≠ []) := by
  by_cases attempts : action.Attempts gate
  · have performed := retry_perform watches attempts faultless queued
    cases stopped : action.findsStopped gate with
    | true =>
        rw [stopped, if_pos rfl] at performed
        exact .inl ⟨attempts, rfl, performed⟩
    | false =>
        rw [stopped, if_neg Bool.false_ne_true] at performed
        exact .inr ⟨performed, watches.of_running (running_of_not_findsStopped stopped)⟩
  · right
    cases action with
    | dataIn chunk => exact absurd trivial attempts
    | probeAnswered => exact absurd trivial attempts
    | close => contradiction
    | connect => exact ⟨rfl, loud, queued⟩
    | retry =>
        have done : gate.perform clock .retry = .done gate := by
          unfold perform
          rw [not_not.mp attempts]
          rfl
        rw [done] at queued ⊢
        exact ⟨rfl, loud, queued⟩

/-! ## The last setting -/

theorem reading_after
    (gate : Gate α)
    (history : List (α × Action α)) :
    (gate.after history).reading = gate.reading := by
  have drives : Drives (fun _ => True) gate.reading gate := ⟨trivial, rfl⟩
  exact (drives.after fun _ _ _ _ _ => trivial).reading_eq

/-- The alarm of a gate is as some attempt left it, which found it stopped and set it for the
chunks that it left queued. -/
structure Setting
    (begun : Gate α)
    (first : List (α × Action α))
    (setAt : α)
    (setBy : Action α)
    (gate : Gate α) : Prop where
  /-- The action attempts to hand over chunks. -/
  attempts : setBy.Attempts (begun.after first)
  /-- It finds the alarm stopped. -/
  stopped : setBy.findsStopped (begun.after first) = true
  /-- It leaves chunks queued. -/
  queued : (begun.after (first ++ [(setAt, setBy)])).queue ≠ []
  /-- It sets the alarm by the wait that is estimated then. -/
  set : (begun.after (first ++ [(setAt, setBy)])).SetAt setAt (begun.reading setAt)
  /-- The alarm is still as it was set. -/
  retry : gate.retry = (begun.after (first ++ [(setAt, setBy)])).retry

/-- While chunks are queued and the gate is not silent, some attempt has set the alarm. -/
theorem exists_setting
    {begun : Gate α}
    (watches : Watches false begun)
    (empty : begun.queue = [])
    {history : List (α × Action α)}
    (faultless : begun.Faultless history)
    (loud : silenced history = false)
    (queued : (begun.after history).queue ≠ []) :
    ∃ first setAt setBy later,
      history = first ++ (setAt, setBy) :: later ∧
        Setting begun first setAt setBy (begun.after history) := by
  induction history using List.reverseRecOn with
  | nil => exact absurd empty queued
  | append_singleton history step inductionHypothesis =>
      obtain ⟨clock, action⟩ := step
      obtain ⟨earlier, latest⟩ := faultless_append.mp faultless
      have performed : ((begun.after history).perform clock action).fault = none :=
        (faultless_cons.mp latest).1
      have after_eq : begun.after (history ++ [(clock, action)]) =
          ((begun.after history).perform clock action).state := after_append _ _ _
      have watchesBefore : Watches (silenced history) (begun.after history) :=
        watches_after watches earlier
      rw [silenced_append] at loud
      rw [after_eq] at queued ⊢
      obtain ⟨attempts, stopped, set⟩ | ⟨same, loudBefore, queuedBefore⟩ :=
        set_or_kept watchesBefore performed loud queued
      · rw [reading_after] at set
        rw [← after_eq] at queued set ⊢
        exact ⟨history, clock, action, [], rfl, attempts, stopped, queued, set, rfl⟩
      · obtain ⟨first, setAt, setBy, later, history_eq, setting⟩ :=
          inductionHypothesis earlier loudBefore queuedBefore
        refine ⟨first, setAt, setBy, later ++ [(clock, action)], ?_, ?_⟩
        · rw [history_eq, List.append_assoc, List.cons_append]
        · exact { setting with retry := same.trans setting.retry }

end Setting

/-! ## Without news -/

/-- Whether an event changes what the wait is estimated from: a chunk leaves the gate, or the
controller is reset. -/
def Event.disturbs {α : Type} : Event α → Bool
  | .forwarded _ | .dropped _ => true
  | .notice reported => reported.isReset
  | .probed | .retryPlanned _ _ | .timer _ => false

/-- A history in which no answer arrives, no chunk leaves the gate and the controller is not
reset. -/
structure Calm (gate : Gate Binary64) (history : List (Binary64 × Action Binary64)) : Prop where
  /-- No answer arrives. -/
  answers : answersDuring history = 0
  /-- Neither does a chunk leave nor is the controller reset. -/
  events : ∀ outcome ∈ gate.outcomes history, ∀ event ∈ outcome.events,
    event.disturbs = false

section Calmness

variable {gate : Gate Binary64} {clock : Binary64}

theorem calm_cons
    {action : Action Binary64}
    {rest : List (Binary64 × Action Binary64)}
    (calm : gate.Calm ((clock, action) :: rest)) :
    action.answers = 0 ∧
      (∀ event ∈ (gate.perform clock action).events, event.disturbs = false) ∧
      (gate.perform clock action).state.Calm rest := by
  have answers := calm.answers
  rw [answersDuring, List.map_cons, List.sum_cons, Nat.add_eq_zero_iff] at answers
  obtain ⟨now, later⟩ := List.forall_mem_cons.mp calm.events
  exact ⟨answers.1, now, answers.2, later⟩

theorem handedOver_eq_nil
    {events : List (Event Binary64)}
    (calm : ∀ event ∈ events, event.disturbs = false) :
    handedOver events = [] := by
  apply List.filterMap_eq_nil_iff.mpr
  intro event member
  have undisturbed := calm event member
  cases event with
  | forwarded chunk => cases undisturbed
  | dropped chunk => cases undisturbed
  | _ => rfl

/-- A flush that hands nothing over and does not find the controller idle is no news for
it. -/
theorem Marked.unmoved_flush
    (marked : Marked gate)
    (faultless : (gate.flush clock).fault = none)
    (calm : ∀ event ∈ (gate.flush clock).events, event.disturbs = false) :
    gate.controller.Unmoved (gate.flush clock).state.controller := by
  obtain ⟨_, ⟨unchanged, state_eq⟩ | ⟨shorter, state_eq⟩⟩ := flush_of_faultless rfl faultless
  · rw [state_eq, unchanged, state_settle]
    apply Controller.unmoved_recordProgress
    · rw [marked.position, marked.windowed.counting]
      exact residue_natCast marked.onRing
    · intro notice member
      apply calm (.notice notice)
      rw [flush_eq rfl]
      exact List.mem_append_left _ (List.mem_map_of_mem member)
  · have accounted := accounts_flush clock gate
    unfold Accounts at accounted
    rw [handedOver_eq_nil calm, List.nil_append, state_eq, state_settle, state_probe] at accounted
    rw [← accounted] at shorter
    exact absurd shorter (lt_irrefl _)

theorem unmoved_perform
    {silent : Bool}
    (watches : Watches silent gate)
    (marked : Marked gate)
    {action : Action Binary64}
    (faultless : (gate.perform clock action).fault = none)
    (unanswered : action.answers = 0)
    (calm : ∀ event ∈ (gate.perform clock action).events, event.disturbs = false) :
    gate.controller.Unmoved (gate.perform clock action).state.controller := by
  cases action with
  | dataIn chunk =>
      have enqueued : Marked (gate.enqueue chunk) := marked.of_eq rfl rfl
      exact enqueued.unmoved_flush faultless calm
  | probeAnswered => contradiction
  | close => exact .refl _
  | connect => exact .refl _
  | retry =>
      unfold perform at faultless calm ⊢
      cases watches.ready with
      | inl idle =>
          rw [idle.armed]
          exact .refl _
      | inr set =>
          obtain ⟨timer, only, _⟩ := set.armed
          rw [only] at faultless calm ⊢
          change (gate.expire timer clock).fault = none at faultless
          change ∀ event ∈ (gate.expire timer clock).events, _ at calm
          change gate.controller.Unmoved (gate.expire timer clock).state.controller
          have rung : Marked (gate.rung timer) := marked.of_eq rfl rfl
          obtain ⟨state_eq, fault_eq⟩ := expire_of_setOnce set timer clock
          rw [expire_eq_of_setOnce set, Outcome.andThen_of_faultless (fault_resetRetry _)]
            at calm
          rw [state_eq]
          exact rung.unmoved_flush (fault_eq ▸ faultless) fun event member =>
            calm event (List.mem_append_right _ member)

theorem unmoved_after
    {silent : Bool}
    (watches : Watches silent gate)
    (marked : Marked gate)
    (waits : Waits gate)
    {history : List (Binary64 × Action Binary64)}
    (faultless : gate.Faultless history)
    (calm : gate.Calm history) :
    gate.controller.Unmoved (gate.after history).controller := by
  induction history generalizing gate silent with
  | nil => exact .refl _
  | cons step rest inductionHypothesis =>
      obtain ⟨clock, action⟩ := step
      obtain ⟨now, later⟩ := faultless_cons.mp faultless
      obtain ⟨unanswered, calmNow, calmLater⟩ := calm_cons calm
      obtain ⟨stepMarked, stepWaits⟩ := marked_perform marked waits now
      exact (unmoved_perform watches marked now unanswered calmNow).trans
        (inductionHypothesis (watches_perform watches now) stepMarked stepWaits later calmLater)

variable {readings : Set Binary64}

/-- The newest probe is a window ahead of the target. -/
theorem Marked.exists_ahead
    (marked : Marked gate)
    (sound : gate.controller.Sound readings) :
    ∃ probe ∈ gate.controller.answered :: gate.controller.pending,
      gate.controller.isAfter probe.position gate.controller.target = true := by
  refine ⟨gate.controller.newest, ?_, ?_⟩
  · unfold Controller.newest
    rw [← List.getLastD_eq_getLast?]
    exact List.getLastD_mem_cons
  · rw [marked.newest, ← marked.position]
    exact Controller.isAfter_position_target sound

/-- The delay after a wait in whole milliseconds. -/
theorem retryDelay_of_some
    {now : Binary64}
    {wait : ℕ}
    (estimated : gate.controller.untilUncongested now = some (finite wait)) :
    gate.retryDelay now = finite (max 1 wait : ℕ) := by
  unfold retryDelay
  rw [estimated]
  dsimp only
  rw [literal_one, larger_finite, Nat.cast_max, Nat.cast_one]

theorem retryDelay_of_none
    {now : Binary64}
    (unknown : gate.controller.untilUncongested now = none) :
    gate.retryDelay now = finite retryInterval := by
  unfold retryDelay
  rw [unknown]
  exact natCast_eq (by norm_num [retryInterval])

/-- In whole milliseconds a timer that was set by an estimate that still holds is due no later
than one that would be set now. -/
theorem add_retryDelay_le
    {set : Gate Binary64}
    (same : ∀ now, gate.controller.untilUncongested now = set.controller.untilUncongested now)
    (ticks : Controller.Ticks readings)
    (sound : set.controller.Sound readings)
    {setAt : Binary64}
    (setAt_mem : setAt ∈ readings)
    (clock_mem : clock ∈ readings)
    (forward : setAt ≤ clock)
    (small : set.retryDelay setAt ≤ finite (2 ^ 52)) :
    setAt + set.retryDelay setAt ≤ clock + gate.retryDelay clock := by
  obtain ⟨first, rfl, _⟩ := ticks setAt setAt_mem
  obtain ⟨second, rfl, _⟩ := ticks clock clock_mem
  rw [finite_le_finite, Nat.cast_le] at forward
  obtain ⟨early, late, early_eq, late_eq, delays_le⟩ : ∃ early late : ℕ,
      set.retryDelay (finite first) = finite early ∧
        gate.retryDelay (finite second) = finite late ∧ first + early ≤ second + late := by
    cases estimated : set.controller.untilUncongested (finite first) with
    | none =>
        have unknown := Controller.untilUncongested_eq_none estimated (finite second)
        rw [← same] at unknown
        exact ⟨_, _, retryDelay_of_none estimated, retryDelay_of_none unknown, by omega⟩
    | some wait =>
        obtain ⟨milliseconds, rfl, _⟩ :=
          Controller.untilUncongested_whole ticks.spaced sound setAt_mem estimated
        have delay_eq := retryDelay_of_some estimated
        rw [delay_eq, finite_le_finite] at small
        have milliseconds_le : milliseconds ≤ 2 ^ 52 :=
          (le_max_right 1 milliseconds).trans (by exact_mod_cast small)
        obtain ⟨left, left_eq, left_le⟩ := sound.untilUncongested_add_le ticks setAt_mem
          clock_mem forward estimated milliseconds_le
        rw [← same] at left_eq
        exact ⟨_, _, delay_eq, retryDelay_of_some left_eq, by omega⟩
  rw [early_eq, late_eq, add_finite, add_finite]
  exact round_mono (by positivity) (by exact_mod_cast delays_le)

end Calmness

/-! ## Any history -/

section Histories

variable {options : Options Binary64} {verifyByDefault : Bool} {start : Binary64}
variable {controller : Controller Binary64} {link : Link} {reading : Binary64 → Binary64}

theorem watches_fresh : Watches false (fresh controller link reading) :=
  ⟨fun _ => Alarm.idle_unused, fun chunks => absurd rfl chunks⟩

/-- The controller of a gate is sound after any part of a history. -/
theorem sound_after_first
    (started : Controller.start options verifyByDefault start = .ok controller)
    {first rest : List (Binary64 × Action Binary64)}
    (spaced : FinitelySpaced (readingsDuring start reading (first ++ rest))) :
    ((fresh controller link reading).after first).controller.Sound
      (readingsDuring start reading (first ++ rest)) := by
  have drives : Drives
      (Controller.Sound (readingsDuring start reading (first ++ rest))) reading
      (fresh controller link reading) :=
    ⟨Controller.sound_of_start List.mem_cons_self started, rfl⟩
  apply (drives.after ?_).controller
  intro step member _ action sound
  apply (sound.perform spaced _ action).2
  exact List.mem_cons_of_mem _ (List.mem_map_of_mem (List.mem_append_left _ member))

/-- Without news the wait is estimated as before, only that time passes. -/
theorem untilUncongested_of_calm
    (started : Controller.start options verifyByDefault start = .ok controller)
    {first rest : List (Binary64 × Action Binary64)}
    (faultless : (fresh controller link reading).Faultless (first ++ rest))
    (calm : ((fresh controller link reading).after first).Calm rest)
    (spaced : FinitelySpaced (readingsDuring start reading (first ++ rest)))
    (now : Binary64) :
    ((fresh controller link reading).after (first ++ rest)).controller.untilUncongested now =
      ((fresh controller link reading).after first).controller.untilUncongested now := by
  obtain ⟨firstFaultless, restFaultless⟩ := faultless_append.mp faultless
  obtain ⟨marked, waits⟩ :=
    marked_after (marked_fresh started link reading) (fun chunks => absurd rfl chunks)
      firstFaultless
  have watches : Watches (silenced first) ((fresh controller link reading).after first) :=
    watches_after watches_fresh firstFaultless
  rw [after_append]
  exact Controller.untilUncongested_of_unmoved
    (unmoved_after watches marked waits restFaultless calm)
    (marked.exists_ahead (sound_after_first started spaced)) now

/-- So on a clock of whole milliseconds a timer that was set before is due in time. -/
theorem due_le_of_calm
    (started : Controller.start options verifyByDefault start = .ok controller)
    {first rest : List (Binary64 × Action Binary64)}
    (faultless : (fresh controller link id).Faultless (first ++ rest))
    (calm : ((fresh controller link id).after first).Calm rest)
    (ticks : Controller.Ticks (readingsDuring start id (first ++ rest)))
    (nondecreasing : ((first ++ rest).map Prod.fst).Pairwise (· ≤ ·))
    {setAt clock : Binary64}
    (setAt_mem : setAt ∈ first.map Prod.fst)
    (clock_mem : clock ∈ rest.map Prod.fst)
    (small : ((fresh controller link id).after first).retryDelay setAt ≤ finite (2 ^ 52)) :
    setAt + ((fresh controller link id).after first).retryDelay setAt ≤
      clock + ((fresh controller link id).after (first ++ rest)).retryDelay clock := by
  have spaced : FinitelySpaced (readingsDuring start id (first ++ rest)) :=
    ticks.spaced.finitely
  have readings_eq : readingsDuring start id (first ++ rest) =
      {now | now ∈ start :: (first ++ rest).map Prod.fst} := rfl
  rw [List.map_append] at nondecreasing readings_eq
  apply add_retryDelay_le (untilUncongested_of_calm started faultless calm spaced) ticks
    (sound_after_first started spaced)
  · rw [readings_eq]
    exact List.mem_cons_of_mem _ (List.mem_append_left _ setAt_mem)
  · rw [readings_eq]
    exact List.mem_cons_of_mem _ (List.mem_append_right _ clock_mem)
  · exact (List.pairwise_append.mp nondecreasing).2.2 setAt setAt_mem clock clock_mem
  · exact small

end Histories

/-- Every attempt that leaves chunks queued has set a timer or finds one.  Take any gate with
a controller that was started, any history in which no action fails, and let its last action
attempt to hand over chunks and leave some queued.  Then one timer is armed.

If the attempt finds the alarm stopped, because it did not run or because it has just rung,
the timer is due after the wait that is estimated now, but at least a millisecond, or after
the retry interval while the wait is unknown.  If it finds the alarm running, it leaves the
timer as an earlier attempt has set it in this way.  As long as there was no news since then,
no answer, no chunk that left and no idle reset, the wait is still estimated as it was when
the timer was set, if no two readings are too far apart for a double.  On a clock of whole
milliseconds that does not run backwards, the timer is then due no later than one that would
be set now. -/
theorem retry_due_by_last_setting
    (options : Options Binary64)
    (verifyByDefault : Bool)
    (start clock : Binary64)
    (controller : Controller Binary64)
    (link : Link)
    (reading : Binary64 → Binary64)
    (history : List (Binary64 × Action Binary64))
    (action : Action Binary64)
    (started : Controller.start options verifyByDefault start = .ok controller)
    (faultless : (fresh controller link reading).Faultless (history ++ [(clock, action)]))
    (attempts : action.Attempts ((fresh controller link reading).after history))
    (queued : ((fresh controller link reading).after
      (history ++ [(clock, action)])).queue ≠ []) :
    let begun := fresh controller link reading
    let gate := begun.after (history ++ [(clock, action)])
    let readings := readingsDuring start reading (history ++ [(clock, action)])
    ∃ timer, gate.retry.timers.armed = [timer] ∧
      if action.findsStopped (begun.after history) then
        timer.due = clock + gate.retryDelay (reading clock)
      else
        gate.retry = (begun.after history).retry ∧
          ∃ first setAt setBy later,
            history = first ++ (setAt, setBy) :: later ∧
              Setting begun first setAt setBy gate ∧
              let set := begun.after (first ++ [(setAt, setBy)])
              timer.due = setAt + set.retryDelay (reading setAt) ∧
                (set.Calm (later ++ [(clock, action)]) →
                  (FinitelySpaced readings → ∀ now,
                    gate.controller.untilUncongested now =
                      set.controller.untilUncongested now) ∧
                  (reading = id → Controller.Ticks readings →
                    ((history ++ [(clock, action)]).map Prod.fst).Pairwise (· ≤ ·) →
                    set.retryDelay setAt ≤ finite (2 ^ 52) →
                    timer.due ≤ clock + gate.retryDelay clock)) := by
  intro begun gate readings
  obtain ⟨earlier, latest⟩ := faultless_append.mp faultless
  have watches : Watches (silenced history) (begun.after history) :=
    watches_after watches_fresh earlier
  have gate_eq : gate = ((begun.after history).perform clock action).state :=
    after_append _ _ _
  have performed := retry_perform watches attempts (faultless_cons.mp latest).1
    (gate_eq ▸ queued)
  rw [reading_after, ← gate_eq] at performed
  cases stopped : action.findsStopped (begun.after history) with
  | true =>
      rw [stopped, if_pos rfl] at performed
      obtain ⟨timer, armed, due⟩ := performed
      exact ⟨timer, armed, due⟩
  | false =>
      rw [stopped, if_neg Bool.false_ne_true] at performed
      obtain ⟨loud, chunks⟩ := watches.of_running (running_of_not_findsStopped stopped)
      obtain ⟨first, setAt, setBy, later, history_eq, setting⟩ :=
        exists_setting watches_fresh rfl earlier loud chunks
      have kept : Setting begun first setAt setBy gate :=
        { setting with retry := performed.trans setting.retry }
      obtain ⟨timer, armed, due⟩ := kept.set
      refine ⟨timer, ?_, performed, first, setAt, setBy, later, history_eq, kept, due, ?_⟩
      · rw [kept.retry]
        exact armed
      · intro calm
        have whole_eq : history ++ [(clock, action)] =
            first ++ [(setAt, setBy)] ++ (later ++ [(clock, action)]) := by
          rw [history_eq]
          simp
        simp only [gate, readings, whole_eq] at faultless ⊢
        refine ⟨untilUncongested_of_calm started faultless calm, ?_⟩
        rintro rfl ticks nondecreasing small
        rw [due]
        exact due_le_of_calm started faultless calm ticks nondecreasing
          (List.mem_map_of_mem (List.mem_append_right first List.mem_cons_self))
          (List.mem_map_of_mem (List.mem_append_right later List.mem_cons_self)) small

/-- Three chunks of which the last one has to wait, and ten milliseconds later one more. -/
def oneMoreChunk : List (Binary64 × Action Binary64) :=
  threeChunks ++ [(finite 10, .dataIn ⟨Array.replicate 100 0⟩)]

theorem ticks_oneMoreChunk : Controller.Ticks (readingsDuring 0 id oneMoreChunk) := by
  have at_most_ten : ∀ now ∈ 0 :: oneMoreChunk.map Prod.fst,
      now = finite (0 : ℕ) ∨ now = finite (10 : ℕ) := by
    decide +kernel
  intro now member
  obtain rfl | rfl := at_most_ten now member
  · exact ⟨0, rfl, by norm_num⟩
  · exact ⟨10, rfl, by norm_num⟩

/-- Only the third of the chunks is left in the queue. -/
theorem eq_threeChunks_of_queued
    {first later : List (Binary64 × Action Binary64)}
    {step : Binary64 × Action Binary64}
    (split : threeChunks = first ++ step :: later)
    (queued : ((fresh .byDefault (.reliable true) id).after (first ++ [step])).queue ≠ []) :
    first ++ [step] = threeChunks ∧ later = [] := by
  have taken : first ++ [step] = threeChunks.take (first.length + 1) := by
    rw [split, List.take_length_add_append]
    rfl
  have length_eq : 3 = first.length + (later.length + 1) := by
    have lengths := congrArg List.length split
    rwa [List.length_append, List.length_cons] at lengths
  have nothing_left : ∀ count ∈ [1, 2],
      ((fresh .byDefault (.reliable true) id).after (threeChunks.take count)).queue.length =
        0 := by
    decide +kernel
  rw [taken] at queued ⊢
  rw [← List.length_pos_iff] at queued
  obtain few | two : first.length + 1 ∈ [1, 2] ∨ first.length = 2 := by
    rw [List.mem_cons, List.mem_singleton]
    omega
  · exact absurd (nothing_left _ few) queued.ne'
  · rw [two]
    exact ⟨rfl, List.length_eq_zero_iff.mp (by omega)⟩

theorem retry_due_by_last_setting_oneMoreChunk :
    let gate := (fresh .byDefault (.reliable true) id).after oneMoreChunk
    gate.queue.length = 2 ∧
      ∃ timer, gate.retry.timers.armed = [timer] ∧
        timer.due ≤ finite 10 + gate.retryDelay (finite 10) := by
  intro gate
  obtain ⟨⟨faultless, waiting, running⟩, unanswered, undisturbed, nondecreasing, small⟩ :
      ((fresh .byDefault (.reliable true) id).Faultless oneMoreChunk ∧
        gate.queue.length = 2 ∧
        ((fresh .byDefault (.reliable true) id).after threeChunks).retry.running = true) ∧
      answersDuring [(finite 10, .dataIn ⟨Array.replicate 100 0⟩)] = 0 ∧
      (∀ outcome ∈ ((fresh .byDefault (.reliable true) id).after threeChunks).outcomes
          [(finite 10, .dataIn ⟨Array.replicate 100 0⟩)],
        ∀ event ∈ outcome.events, event.disturbs = false) ∧
      (oneMoreChunk.map Prod.fst).Pairwise (· ≤ ·) ∧
      ((fresh .byDefault (.reliable true) id).after threeChunks).retryDelay 0 ≤
        finite (2 ^ 52) := by
    decide +kernel
  have queued : gate.queue ≠ [] :=
    List.length_pos_iff.mp (waiting.symm ▸ Nat.zero_lt_two)
  obtain ⟨timer, armed, left⟩ := retry_due_by_last_setting ⟨none, none⟩ true 0 (finite 10)
    .byDefault (.reliable true) id threeChunks (.dataIn ⟨Array.replicate 100 0⟩)
    Controller.start_byDefault faultless trivial queued
  refine ⟨waiting, timer, armed, ?_⟩
  unfold Action.findsStopped at left
  rw [running, Bool.not_true, if_neg Bool.false_ne_true] at left
  obtain ⟨_, first, setAt, setBy, later, split, setting, _, bound⟩ := left
  obtain ⟨set_eq, rfl⟩ := eq_threeChunks_of_queued split setting.queued
  have last_eq := congrArg List.getLast? set_eq
  rw [List.getLast?_concat] at last_eq
  obtain ⟨rfl, -⟩ := Prod.mk.inj (Option.some.inj last_eq)
  rw [set_eq] at bound
  exact (bound ⟨unanswered, undisturbed⟩).2 rfl ticks_oneMoreChunk nondecreasing small

/-- Three chunks of which the last one has to wait before the wire latency is known. -/
def beforeAnswer : List (Binary64 × Action Binary64) :=
  [(0, .dataIn ⟨Array.replicate 1000 0⟩),
    (finite 20, .dataIn ⟨Array.replicate 20000 0⟩),
    (finite 20, .dataIn ⟨Array.replicate 500 0⟩)]

/-- News can shorten the wait, but the alarm is not set again.  Here the third chunk has to wait
for the retry interval.  Ten milliseconds later an answer tells the wire latency, and the
window is going to have room after sixteen more, but the timer is due after ninety. -/
theorem retry_no_later_than_wait_refuted :
    ¬∀ (history : List (Binary64 × Action Binary64)) (clock : Binary64)
        (action : Action Binary64),
        let begun := fresh .byDefault (.reliable true) id
        let gate := begun.after (history ++ [(clock, action)])
        begun.Faultless (history ++ [(clock, action)]) →
          ((history ++ [(clock, action)]).map Prod.fst).Pairwise (· ≤ ·) →
          action.Attempts (begun.after history) → gate.queue ≠ [] →
            ∀ timer ∈ gate.retry.timers.armed,
              timer.due ≤ clock + gate.retryDelay clock := by
  intro early
  let gate := (fresh .byDefault (.reliable true) id).after
    (beforeAnswer ++ [(finite 30, .probeAnswered)])
  obtain ⟨faultless, nondecreasing, waiting, timer, member, due_eq, wait_eq⟩ :
      (fresh .byDefault (.reliable true) id).Faultless
          (beforeAnswer ++ [(finite 30, .probeAnswered)]) ∧
        ((beforeAnswer ++ [(finite 30, Action.probeAnswered)]).map Prod.fst).Pairwise
          (· ≤ ·) ∧
        0 < gate.queue.length ∧
        ∃ timer ∈ gate.retry.timers.armed, timer.due = finite 120 ∧
          finite 30 + gate.retryDelay (finite 30) = finite 46 := by
    decide +kernel
  have bound := early beforeAnswer (finite 30) .probeAnswered faultless nondecreasing trivial
    (List.length_pos_iff.mp waiting) timer member
  rw [due_eq, wait_eq, finite_le_finite] at bound
  norm_num at bound

end Gate
end Backpressure
