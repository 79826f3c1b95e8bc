import Backpressure.Binary64.Arithmetic
import Backpressure.Proofs.Gate.Steps

/-!
# Exactly-once hand-over

Every chunk that comes in leaves the queue once, whole and in order.  Chunks
handed over and chunks still queued together are the chunks that came in,
whatever the clock shows and whichever calls of the receiver or of the link
fail.
-/

namespace Backpressure
namespace Gate

variable {α : Type}

/-! ## What was handed over -/

/-- The chunk that left the gate in an event, whether or not the receiver took
it. -/
def Event.chunk? : Event α → Option Chunk
  | .forwarded chunk | .dropped chunk => some chunk
  | .notice _ | .probed | .retryPlanned _ _ | .timer _ => none

/-- The chunks that left the gate in some events, in order. -/
def handedOver (events : List (Event α)) : List Chunk :=
  events.filterMap Event.chunk?

@[simp] theorem handedOver_nil :
    handedOver ([] : List (Event α)) = [] := rfl

@[simp] theorem handedOver_append (first second : List (Event α)) :
    handedOver (first ++ second) = handedOver first ++ handedOver second :=
  List.filterMap_append

/-- Notices of the controller hand nothing over. -/
@[simp] theorem handedOver_map_notice (notices : List (Notice α)) :
    handedOver (notices.map Event.notice) = [] := by
  induction notices with
  | nil => rfl
  | cons notice rest inductionHypothesis => exact inductionHypothesis

/-- Events of timers hand nothing over. -/
@[simp] theorem handedOver_map_timer (events : List (Timers.Event α)) :
    handedOver (events.map Event.timer) = [] := by
  induction events with
  | nil => rfl
  | cons event rest inductionHypothesis => exact inductionHypothesis

/-! ## Accounts of single operations -/

/-- The chunks that an operation handed over, followed by those it left in the
queue, are the given ones. -/
def Accounts (chunks : List Chunk) (result : Result α) : Prop :=
  handedOver result.events ++ result.state.queue = chunks

/-- An operation that neither hands over chunks nor touches the queue. -/
theorem Accounts.of_unchanged
    {gate : Gate α}
    {result : Result α}
    (nothing : handedOver result.events = [])
    (queue : result.state.queue = gate.queue) :
    Accounts gate.queue result := by
  unfold Accounts
  rw [nothing, queue, List.nil_append]

theorem accounts_done (gate : Gate α) : Accounts gate.queue (.done gate) :=
  .of_unchanged rfl rfl

/-- Accounts compose.  A fault of the first operation leaves its account as it
is. -/
theorem Accounts.andThen
    {chunks : List Chunk}
    {first : Result α}
    {second : Gate α → Result α}
    (accounted : Accounts chunks first)
    (next : Accounts first.state.queue (second first.state)) :
    Accounts chunks (first.andThen second) := by
  cases faulty : first.fault with
  | some reason =>
      simpa only [Outcome.andThen, faulty] using accounted
  | none =>
      unfold Accounts at accounted next ⊢
      rw [Outcome.andThen_of_faultless faulty, handedOver_append,
        List.append_assoc, next, accounted]

theorem accounts_withController
    (gate : Gate α)
    (result : Controller.Result α) :
    Accounts gate.queue (gate.withController result) :=
  .of_unchanged (handedOver_map_notice result.events) rfl

theorem accounts_withRetry
    (gate : Gate α)
    (result : Outcome (Timers.Event α) (Fault α) (Alarm α Unit)) :
    Accounts gate.queue (gate.withRetry result) :=
  .of_unchanged (handedOver_map_timer result.events) rfl

theorem accounts_resetRetry (gate : Gate α) :
    Accounts gate.queue gate.resetRetry :=
  gate.accounts_withRetry _

/-- Forwarding hands the chunk over even if the receiver fails at it. -/
theorem accounts_forward (chunk : Chunk) (gate : Gate α) :
    Accounts (chunk :: gate.queue) (gate.forward chunk) := by
  unfold Accounts forward
  by_cases connected : gate.link.connected
  · by_cases fails : gate.link.chunkFails <;>
      simp [connected, fails, Outcome.failed, Outcome.done, handedOver,
        Event.chunk?]
  · simp [connected, handedOver, Event.chunk?]

variable [Arithmetic α]

theorem accounts_report (now : α) (gate : Gate α) :
    Accounts gate.queue (gate.report now) :=
  gate.accounts_withController _

/-- One pass takes one chunk from the queue and hands it over. -/
theorem accounts_pass
    (now : α)
    (chunk : Chunk)
    (rest : List Chunk)
    (gate : Gate α) :
    Accounts (chunk :: rest) (gate.pass now chunk rest) := by
  have forwarded := accounts_forward chunk (gate.take chunk rest)
  exact forwarded.andThen (accounts_report now _)

/-- The loop hands over a part from the front of the queue, and the rest
stays. -/
theorem accounts_handOver
    (now : α)
    {chunks : List Chunk}
    {gate : Gate α}
    (queue : gate.queue = chunks) :
    Accounts chunks (gate.handOver now chunks) := by
  induction chunks generalizing gate with
  | nil => simpa only [handOver, queue] using accounts_done gate
  | cons chunk rest inductionHypothesis =>
      unfold handOver
      split
      · simpa only [queue] using accounts_done gate
      · have restQueue := queue_pass now chunk rest gate
        apply (accounts_pass now chunk rest gate).andThen
        rw [restQueue]
        exact inductionHypothesis restQueue

/-- Sending a probe hands over no chunk. -/
theorem accounts_probe (now : α) (gate : Gate α) :
    Accounts gate.queue (gate.probe now) := by
  apply (gate.accounts_withController _).andThen
  by_cases fails : gate.link.probeFails
  all_goals
    exact .of_unchanged
      (by simp [withController, Outcome.within, fails, Outcome.failed,
        Outcome.done, handedOver, Event.chunk?])
      (by simp [withController, Outcome.within, fails, Outcome.failed,
        Outcome.done])

/-- Settling hands over no chunk. -/
theorem accounts_settle (clock now : α) (gate : Gate α) :
    Accounts gate.queue (gate.settle clock now) := by
  unfold settle
  split
  · split
    · exact gate.accounts_resetRetry
    · exact gate.accounts_done
  · unfold scheduleRetry
    split
    · exact gate.accounts_done
    · have planned : Accounts gate.queue
          (.reporting [.retryPlanned gate.queuedBytes (gate.retryDelay now)]
            gate) := .of_unchanged rfl rfl
      exact planned.andThen (gate.accounts_withRetry _)

/-- A flush hands over a part from the front of the queue. -/
theorem accounts_flush (clock : α) (gate : Gate α) :
    Accounts gate.queue (gate.flush clock) := by
  apply (accounts_report _ gate).andThen
  apply (accounts_handOver _ rfl).andThen
  refine Accounts.andThen ?_ (accounts_settle _ _ _)
  split
  · exact accounts_probe _ _
  · exact accounts_done _

/-- Every attempt of the alarm hands over a part from the front. -/
theorem accounts_attempt
    (clock : α)
    (listeners : List Unit)
    (gate : Gate α) :
    Accounts gate.queue (attempt clock listeners gate) := by
  induction listeners generalizing gate with
  | nil => exact gate.accounts_done
  | cons listener rest inductionHypothesis =>
      refine Accounts.andThen ?_ (inductionHypothesis _)
      exact gate.accounts_resetRetry.andThen (accounts_flush clock _)

/-- What an action brings in goes to the end of the queue. -/
theorem accounts_perform
    (gate : Gate α)
    (clock : α)
    (action : Action α) :
    Accounts (gate.queue ++ action.given) (gate.perform clock action) := by
  cases action with
  | dataIn chunk => exact accounts_flush clock (gate.enqueue chunk)
  | probeAnswered =>
      rw [Action.given, List.append_nil]
      exact (gate.accounts_withController _).andThen (accounts_flush clock _)
  | close =>
      rw [Action.given, List.append_nil]
      exact gate.accounts_resetRetry
  | connect =>
      rw [Action.given, List.append_nil]
      exact .of_unchanged rfl rfl
  | retry =>
      rw [Action.given, List.append_nil]
      unfold perform
      cases Timers.earliest? gate.retry.timers.armed with
      | none => exact gate.accounts_done
      | some timer => exact accounts_attempt clock _ _

/-! ## Accounts of histories -/

/-- The chunks that a history hands over, in order, including those at which
the receiver failed. -/
def handedOverDuring (gate : Gate α) (history : List (α × Action α)) :
    List Chunk :=
  (gate.outcomes history).flatMap fun outcome => handedOver outcome.events

/-- From any gate on, what was handed over and what is still queued is what was
queued before and what came in. -/
theorem handedOverDuring_append_queue_after
    (gate : Gate α)
    (history : List (α × Action α)) :
    gate.handedOverDuring history ++ (gate.after history).queue =
      gate.queue ++ givenDuring history := by
  induction history generalizing gate with
  | nil => simp [handedOverDuring, givenDuring, outcomes]
  | cons step rest inductionHypothesis =>
      have now := accounts_perform gate step.1 step.2
      have later := inductionHypothesis (gate.perform step.1 step.2).state
      unfold Accounts at now
      simp only [handedOverDuring, givenDuring, outcomes, after_cons,
        List.flatMap_cons] at later ⊢
      rw [List.append_assoc, later, ← List.append_assoc, now,
        List.append_assoc]

/-- Chunks are handed over exactly once and in order: those handed over by any
history of a fresh gate, followed by those still queued, are those that came
in. -/
theorem handedOver_then_queued_eq_given
    (controller : Controller α)
    (link : Link)
    (reading : α → α)
    (history : List (α × Action α)) :
    (fresh controller link reading).handedOverDuring history ++
        ((fresh controller link reading).after history).queue =
      givenDuring history := by
  rw [handedOverDuring_append_queue_after]
  rfl

/-- A link that fails at its first probe and at its second chunk. -/
def twoFaults : Link :=
  ⟨true, [false, true], [true]⟩

/-- A gate in front of such a link. -/
def hampered : Gate Binary64 :=
  fresh (.fresh ⟨(Window.initial : Binary64), true, .wrapping⟩ 0) twoFaults id

theorem handedOver_then_queued_eq_given_twoFaults :
    (hampered.outcomes threeChunks).map Outcome.fault =
        [some .probeFailed, some .forwardFailed, none] ∧
      (hampered.handedOverDuring threeChunks).map ByteArray.size = [1000, 20000] ∧
      (hampered.after threeChunks).queue.map ByteArray.size = [500] ∧
      hampered.handedOverDuring threeChunks ++ (hampered.after threeChunks).queue =
        givenDuring (threeChunks : List (Binary64 × Action Binary64)) := by
  have account := handedOver_then_queued_eq_given hampered.controller twoFaults id
    threeChunks
  refine ⟨?_, ?_, ?_, account⟩ <;> decide +kernel

end Gate
end Backpressure
