import Backpressure.Proofs.Gate.Faults

/-!
# Halting

An attempt that fails was made by an alarm that has rung, and the fault keeps it from
being set again.  The gate then makes no further attempt by itself, until something
comes in and the flush ends without a fault.  Any other fault leaves the alarm as it
was, so that it goes on to watch over the chunks that are queued.
-/

namespace Backpressure
namespace Gate

open Binary64

variable {α : Type}

/-! ## Gates that are halted -/

/-- Whether a gate is halted after an action.  Closing it halts it, and so does an
attempt that fails; what comes in without a fault sets it going again. -/
def Action.halts (halted failed : Bool) : Action α → Bool
  | .dataIn _ | .probeAnswered => halted && failed
  | .close => true
  | .connect => halted
  | .retry => halted || failed

/-- Whether an action brings something in: a chunk or an answer. -/
def Action.comesIn : Action α → Bool
  | .dataIn _ | .probeAnswered => true
  | .close | .connect | .retry => false

/-- What comes in without a fault sets a gate going. -/
theorem Action.halts_of_comesIn
    {action : Action α}
    (comes : action.comesIn = true)
    (halted : Bool) :
    action.halts halted false = false := by
  cases action with
  | dataIn chunk => exact Bool.and_false halted
  | probeAnswered => exact Bool.and_false halted
  | close => contradiction
  | connect => contradiction
  | retry => contradiction

/-- The alarm of a gate is idle if the gate is halted, and otherwise it is set as long
as chunks are queued. -/
structure Guards (halted : Bool) (gate : Gate α) : Prop where
  /-- The alarm is idle or set once. -/
  ready : gate.retry.Ready
  /-- It is idle in a halted gate. -/
  idle : halted = true → gate.retry.Idle
  /-- It is set in any other one with chunks. -/
  set : halted = false → gate.queue ≠ [] → gate.retry.SetOnce

/-- What leaves the alarm alone keeps it watching, if it brings no chunk into an empty
queue. -/
theorem Guards.of_eq
    {halted : Bool}
    {gate other : Gate α}
    (guards : Guards halted gate)
    (same : other.retry = gate.retry)
    (chunks : other.queue ≠ [] → gate.queue ≠ []) :
    Guards halted other where
  ready := same ▸ guards.ready
  idle halt := same ▸ guards.idle halt
  set going queued := same ▸ guards.set going (chunks queued)

theorem guards_of_idle
    {gate : Gate α}
    (idle : gate.retry.Idle) :
    Guards true gate where
  ready := .inl idle
  idle _ := idle
  set going := by simp at going

theorem Follows.guards
    {gate : Gate α}
    (follows : Follows gate) :
    Guards false gate where
  ready := follows.ready
  idle halt := by simp at halt
  set _ := follows.set

/-- An alarm that is set once has one timer and one listener. -/
theorem counts_of_setOnce
    {alarm : Alarm α Unit}
    (set : alarm.SetOnce) :
    alarm.running = true ∧ alarm.timers.armed.length = 1 ∧
      alarm.listeners.length = 1 := by
  obtain ⟨timer, only, _⟩ := set.armed
  rw [only, set.listeners]
  exact ⟨set.running, rfl, rfl⟩

variable [Arithmetic α]

theorem guards_fresh
    (controller : Controller α)
    (link : Link)
    (reading : α → α) :
    Guards false (fresh controller link reading) where
  ready := .inl Alarm.idle_unused
  idle := by simp
  set _ chunks := absurd rfl chunks

/-- Whether a gate is halted after a history. -/
def haltedAfter (halted : Bool) (gate : Gate α) : List (α × Action α) → Bool
  | [] => halted
  | (clock, action) :: rest =>
    let outcome := gate.perform clock action
    outcome.state.haltedAfter (action.halts halted outcome.fault.isSome) rest

/-! ## Faults and the alarm -/

section Flush

variable {gate : Gate α} {clock : α} {reason : Fault α}

/-- A faulty flush leaves the alarm alone. -/
theorem retry_flush_of_faulty
    (faulty : (gate.flush clock).fault = some reason) :
    (gate.flush clock).state.retry = gate.retry := by
  obtain ⟨_, state_eq⟩ | ⟨_, _, state_eq⟩ := flush_of_faulty rfl faulty
  · rw [state_eq, retry_relieved]
  · rw [state_eq, state_probe, retry_relieved]

/-- A faulty flush has taken at least one chunk. -/
theorem length_queue_flush_of_faulty
    (faulty : (gate.flush clock).fault = some reason) :
    (gate.flush clock).state.queue.length < gate.queue.length := by
  rw [queue_flush rfl]
  obtain ⟨handOver_faulty, _⟩ | ⟨_, shorter, _⟩ := flush_of_faulty rfl faulty
  · have front : (gate.refreshed (gate.reading clock)).queue = gate.queue := rfl
    obtain ⟨sent, chunk, rest, queue, _, state_eq⟩ :=
      handOver_of_faulty (motive := fun _ => True) (fun _ _ _ _ _ _ => trivial)
        front handOver_faulty trivial
    unfold relieved
    rw [state_eq, queue]
    simp only [failedAt, take, List.length_append, List.length_cons]
    omega
  · exact shorter

end Flush

section Actions

variable {halted : Bool} {gate : Gate α}

/-- A flush that does not fail sets a gate going, and a faulty one leaves it as it was.
No chunk can be left over from an empty queue, as a faulty flush has taken one. -/
theorem Guards.flush
    (guards : Guards halted gate)
    {entry : Gate α}
    (same : entry.retry = gate.retry)
    (few : gate.queue = [] → entry.queue.length ≤ 1)
    (clock : α) :
    Guards (halted && (entry.flush clock).fault.isSome)
      (entry.flush clock).state := by
  cases ended : (entry.flush clock).fault with
  | none =>
      rw [Option.isSome_none, Bool.and_false]
      have ready : entry.retry.Ready := same ▸ guards.ready
      exact (follows_flush ready ended).guards
  | some reason =>
      rw [Option.isSome_some, Bool.and_true]
      apply guards.of_eq
      · rw [retry_flush_of_faulty ended, same]
      · intro queued empty
        have shorter := length_queue_flush_of_faulty ended
        have positive := List.length_pos_iff.mpr queued
        have at_most := few empty
        omega

/-- Every action halts a gate or sets it going as it is said to. -/
theorem Guards.perform
    (guards : Guards halted gate)
    (clock : α)
    (action : Action α) :
    Guards (action.halts halted (gate.perform clock action).fault.isSome)
      (gate.perform clock action).state := by
  cases action with
  | dataIn chunk =>
      have enqueued : (gate.enqueue chunk).retry = gate.retry := rfl
      apply guards.flush enqueued
      intro empty
      simp [enqueue, empty]
  | probeAnswered =>
      unfold Gate.perform Gate.probeAnswered
      cases answered : (gate.withController
          (gate.controller.probeAnswered (gate.reading clock))).fault with
      | none =>
          rw [Outcome.andThen_of_faultless answered]
          have same : (gate.answeredAt clock).retry = gate.retry := rfl
          apply guards.flush same
          intro empty
          simp [answeredAt, empty]
      | some cause =>
          rw [Outcome.andThen_of_faulty answered, answered, Option.isSome_some,
            Action.halts, Bool.and_true]
          exact guards.of_eq rfl id
  | close => exact guards_of_idle (guards.ready.reset (Fault α))
  | connect => exact guards.of_eq rfl id
  | retry =>
      unfold Gate.perform
      cases guards.ready with
      | inl idle =>
          rw [idle.armed]
          simpa [Action.halts, Timers.earliest?] using guards
      | inr set =>
          obtain ⟨timer, only, _⟩ := set.armed
          obtain ⟨state_eq, fault_eq⟩ := expire_of_setOnce set timer clock
          have going : halted = false := by
            rw [← Bool.not_eq_true]
            intro halt
            have running := set.running
            rw [(guards.idle halt).running] at running
            contradiction
          rw [only, going]
          change Guards (false || (gate.expire timer clock).fault.isSome)
            (gate.expire timer clock).state
          rw [state_eq, fault_eq, Bool.false_or]
          cases ended : ((gate.rung timer).flush clock).fault with
          | none => exact (follows_flush (ready_rung only) ended).guards
          | some reason =>
              apply guards_of_idle
              rw [retry_flush_of_faulty ended]
              exact Alarm.idle_reset_ring only (Fault α)

/-- So it is over any history. -/
theorem Guards.after
    (guards : Guards halted gate)
    (history : List (α × Action α)) :
    Guards (gate.haltedAfter halted history) (gate.after history) := by
  induction history generalizing halted gate with
  | nil => exact guards
  | cons step rest inductionHypothesis =>
      exact inductionHypothesis (guards.perform step.1 step.2)

end Actions

/-! ## Retries after faults -/

/-- A fault halts a gate only in an attempt.  Take any controller, any link, and any
actions at any readings, and let chunks be queued when an action ends, with a fault or
without.  Unless the gate is halted, its alarm runs then with one timer and one
listener.  A gate is halted from a close or from an attempt that fails on, and until
something comes in without a fault.  Its alarm has neither a timer nor a listener then,
and the next thing that comes in without a fault sets it, if chunks are left. -/
theorem retries_unless_halted
    (controller : Controller α)
    (link : Link)
    (reading : α → α)
    (history : List (α × Action α))
    (clock : α)
    (action : Action α) :
    let begun := fresh controller link reading
    let outcome := (begun.after history).perform clock action
    let halted := begun.haltedAfter false (history ++ [(clock, action)])
    outcome.state.queue ≠ [] →
      (halted = false →
        outcome.state.retry.running = true ∧
          outcome.state.retry.timers.armed.length = 1 ∧
          outcome.state.retry.listeners.length = 1) ∧
      (halted = true →
        outcome.state.retry.running = false ∧
          outcome.state.retry.timers.armed = [] ∧
          outcome.state.retry.listeners = []) ∧
      ∀ next incoming, incoming.comesIn = true →
        let later := outcome.state.perform next incoming
        later.fault = none → later.state.queue ≠ [] →
          later.state.retry.running = true ∧
            later.state.retry.timers.armed.length = 1 ∧
            later.state.retry.listeners.length = 1 := by
  intro begun outcome halted queued
  have guards : Guards halted outcome.state := by
    have state_eq : outcome.state = begun.after (history ++ [(clock, action)]) := by
      rw [after_append, after_cons, after_nil]
    rw [state_eq]
    exact (guards_fresh controller link reading).after _
  refine ⟨?_, ?_, ?_⟩
  · intro going
    exact counts_of_setOnce (guards.set going queued)
  · intro halt
    have idle := guards.idle halt
    exact ⟨idle.running, idle.armed, idle.listeners⟩
  · intro next incoming comes later faultless left
    have watching := guards.perform next incoming
    rw [faultless, Option.isSome_none, Action.halts_of_comesIn comes] at watching
    exact counts_of_setOnce (watching.set rfl left)

/-- A probe that takes thirty milliseconds, bytes that fill the window, and two chunks
that have to wait. -/
def twoWaiting : List (Binary64 × Action Binary64) :=
  [(0, .dataIn ⟨Array.replicate 1000 0⟩),
    (finite 20, .dataIn ⟨Array.replicate 20000 0⟩),
    (finite 30, .probeAnswered),
    (finite 30, .dataIn ⟨Array.replicate 500 0⟩),
    (finite 30, .dataIn ⟨Array.replicate 600 0⟩)]

/-- A link whose receiver fails at its third chunk. -/
def thirdFails : Link :=
  ⟨true, [false, false, true], []⟩

/-- The attempt at the first of the two chunks, which fails. -/
def failedAttempt : Result Binary64 :=
  ((fresh .byDefault thirdFails id).after twoWaiting).perform (finite 46) .retry

/-- The answer to the second probe, if the receiver fails then. -/
def failedAnswer : Result Binary64 :=
  ((fresh .byDefault thirdFails id).after twoWaiting).perform (finite 46)
    .probeAnswered

theorem retries_unless_halted_failedAnswer :
    failedAnswer.fault = some .forwardFailed ∧
      failedAnswer.state.queue.length = 1 ∧
      failedAnswer.state.retry.running = true ∧
      failedAnswer.state.retry.timers.armed.length = 1 ∧
      failedAnswer.state.retry.listeners.length = 1 := by
  obtain ⟨failed, one, going⟩ :
      failedAnswer.fault = some .forwardFailed ∧
        failedAnswer.state.queue.length = 1 ∧
        (fresh .byDefault thirdFails id).haltedAfter false
          (twoWaiting ++ [(finite 46, .probeAnswered)]) = false := by
    decide +kernel
  refine ⟨failed, one, ?_⟩
  exact (retries_unless_halted .byDefault thirdFails id twoWaiting (finite 46)
    .probeAnswered (List.ne_nil_of_length_eq_add_one one)).1 going

/-- A gate whose attempt fails makes no further one by itself. -/
theorem retries_after_attempt_refuted :
    ¬∀ (link : Link) (history : List (Binary64 × Action Binary64))
        (clock : Binary64) (action : Action Binary64),
        let outcome := ((fresh .byDefault link id).after history).perform clock action
        (∀ step ∈ history, step.2 ≠ .close) → action ≠ .close →
          (0 :: history.map Prod.fst ++ [clock]).Pairwise (· ≤ ·) →
          outcome.fault ≠ none → outcome.state.queue ≠ [] →
            outcome.state.retry.running = true ∧
              outcome.state.retry.timers.armed.length = 1 ∧
              outcome.state.retry.listeners.length = 1 := by
  intro retried
  obtain ⟨failed, one, stopped⟩ :
      failedAttempt.fault = some .forwardFailed ∧
        failedAttempt.state.queue.length = 1 ∧
        failedAttempt.state.retry.running = false := by
    decide +kernel
  have running : failedAttempt.state.retry.running = true := by
    refine (retried thirdFails twoWaiting (finite 46) .retry ?_ ?_ ?_ ?_ ?_).1
    · simp [twoWaiting]
    · simp
    · decide +kernel
    · change failedAttempt.fault ≠ none
      rw [failed]
      exact Option.some_ne_none _
    · exact List.ne_nil_of_length_eq_add_one one
  rw [stopped] at running
  contradiction

end Gate
end Backpressure
