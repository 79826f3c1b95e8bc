import Backpressure.Proofs.Gate.Bytes

/-!
# Faults of a receiver

A gate takes a chunk from its queue and counts it before the receiver sees it.  So if
the receiver fails at a chunk, this chunk is gone: what was handed over before it
stays handed over, what is behind it stays queued, and no later flush hands it over
again.
-/

namespace Backpressure
namespace Gate

open Binary64

section Steps

variable {α : Type} {gate : Gate α} {reason : Fault α}

/-! ## Faulty steps -/

/-- Only a connected receiver fails at a chunk. -/
theorem forward_of_faulty
    {chunk : Chunk}
    (faulty : (gate.forward chunk).fault = some reason) :
    gate.link.connected = true ∧ reason = .forwardFailed := by
  unfold forward at faulty
  split at faulty
  · next connected =>
      rw [Outcome.andThen_reporting] at faulty
      split at faulty
      · exact ⟨connected, (Option.some.inj faulty).symm⟩
      · contradiction
  · contradiction

variable [Arithmetic α]

/-- The gate when its receiver has failed at the chunk in front of the queue. -/
def failedAt (chunk : Chunk) (rest : List Chunk) (gate : Gate α) : Gate α :=
  { gate.take chunk rest with link := gate.link.afterChunk }

/-- A pass fails at its receiver, with the chunk taken and before the controller is
told. -/
theorem pass_of_faulty
    {now : α}
    {chunk : Chunk}
    {rest : List Chunk}
    (faulty : (gate.pass now chunk rest).fault = some reason) :
    reason = .forwardFailed ∧
      (gate.pass now chunk rest).state = gate.failedAt chunk rest := by
  unfold pass at faulty ⊢
  cases forwarded : ((gate.take chunk rest).forward chunk).fault with
  | none =>
      rw [Outcome.andThen_of_faultless forwarded, fault_report] at faulty
      contradiction
  | some cause =>
      rw [Outcome.andThen_of_faulty forwarded] at faulty ⊢
      obtain ⟨connected, rfl⟩ := forward_of_faulty faulty
      refine ⟨rfl, ?_⟩
      rw [state_forward, linkAfterChunk, if_pos connected]
      rfl

/-- A hand-over fails at one of its chunks, after those before it were passed without
a fault. -/
theorem handOver_of_faulty
    {motive : Gate α → Prop}
    {now : α}
    (keeps : ∀ (gate : Gate α) (chunk : Chunk) (rest : List Chunk),
      gate.queue = chunk :: rest →
      (gate.pass now chunk rest).fault = none →
      motive gate →
      motive (gate.pass now chunk rest).state)
    {chunks : List Chunk}
    (queue : gate.queue = chunks)
    (faulty : (gate.handOver now chunks).fault = some reason)
    (holds : motive gate) :
    ∃ sent chunk rest,
      chunks = sent ++ chunk :: rest ∧
        motive (gate.passed now sent.length) ∧
        (gate.handOver now chunks).state =
          (gate.passed now sent.length).failedAt chunk rest := by
  induction chunks generalizing gate with
  | nil => contradiction
  | cons chunk rest inductionHypothesis =>
      unfold handOver at faulty ⊢
      split at faulty
      · contradiction
      · next free =>
          rw [if_neg free]
          cases passed : (gate.pass now chunk rest).fault with
          | none =>
              rw [Outcome.andThen_of_faultless passed] at faulty ⊢
              obtain ⟨sent, failed, behind, rest_eq, earlier, later⟩ :=
                inductionHypothesis (queue_pass now chunk rest gate) faulty
                  (keeps gate chunk rest queue passed holds)
              have step : gate.passed now (chunk :: sent).length =
                  (gate.pass now chunk rest).state.passed now sent.length := by
                simp only [List.length_cons, Gate.passed, queue]
              refine ⟨chunk :: sent, failed, behind, ?_, ?_, ?_⟩
              · rw [rest_eq, List.cons_append]
              · rw [step]
                exact earlier
              · rw [step]
                exact later
          | some cause =>
              rw [Outcome.andThen_of_faulty passed] at faulty ⊢
              exact ⟨[], chunk, rest, rfl, holds, (pass_of_faulty faulty).2⟩

/-- Only the link makes a probe fail. -/
theorem probe_of_faulty
    {now : α}
    (faulty : (gate.probe now).fault = some reason) :
    reason = .probeFailed := by
  unfold probe at faulty
  rw [Outcome.andThen_of_faultless (by simp [withController])] at faulty
  split at faulty
  · exact (Option.some.inj faulty).symm
  · contradiction

/-! ## Faulty flushes -/

/-- What a flush of some chunks does when its hand-over is done. -/
def conclude (clock now : α) (chunks : List Chunk) (gate : Gate α) : Result α :=
  let probed :=
    if gate.queue.length < chunks.length then gate.probe now else .done gate
  probed.andThen (settle clock now)

/-- A flush is a hand-over and its conclusion, after a report that cannot fail. -/
theorem flush_eq
    {clock now : α}
    (now_eq : gate.reading clock = now) :
    gate.flush clock =
      let handedOver := (gate.refreshed now).handOver now gate.queue
      let rest := handedOver.andThen (conclude clock now gate.queue)
      ⟨rest.state, (gate.report now).events ++ rest.events, rest.fault⟩ := by
  unfold flush
  simp only [now_eq]
  rw [Outcome.andThen_of_faultless (fault_report now gate)]
  rfl

/-- A conclusion fails at its probe only, before the alarm is settled. -/
theorem conclude_of_faulty
    {clock now : α}
    {chunks : List Chunk}
    (faulty : (gate.conclude clock now chunks).fault = some reason) :
    reason = .probeFailed ∧ gate.queue.length < chunks.length ∧
      (gate.conclude clock now chunks).state = (gate.probe now).state := by
  unfold conclude at faulty ⊢
  dsimp only at faulty ⊢
  split_ifs at faulty ⊢ with shorter
  · cases probed : (gate.probe now).fault with
    | none =>
        rw [Outcome.andThen_of_faultless probed, fault_settle] at faulty
        contradiction
    | some cause =>
        rw [Outcome.andThen_of_faulty probed] at faulty ⊢
        exact ⟨probe_of_faulty faulty, shorter, rfl⟩
  · rw [Outcome.andThen_done, fault_settle] at faulty
    contradiction

/-- A faulty flush ends in its hand-over or with the probe after it. -/
theorem flush_of_faulty
    {clock now : α}
    (now_eq : gate.reading clock = now)
    (faulty : (gate.flush clock).fault = some reason) :
    (((gate.refreshed now).handOver now gate.queue).fault = some reason ∧
        (gate.flush clock).state = gate.relieved now) ∨
      (reason = .probeFailed ∧
        (gate.relieved now).queue.length < gate.queue.length ∧
        (gate.flush clock).state = ((gate.relieved now).probe now).state) := by
  rw [flush_eq now_eq] at faulty ⊢
  dsimp only at faulty ⊢
  cases handedOver : ((gate.refreshed now).handOver now gate.queue).fault with
  | none =>
      right
      rw [Outcome.andThen_of_faultless handedOver] at faulty ⊢
      exact conclude_of_faulty faulty
  | some cause =>
      left
      rw [Outcome.andThen_of_faulty handedOver] at faulty ⊢
      exact ⟨handedOver.symm.trans faulty, rfl⟩

/-- After its hand-over a flush leaves the queue alone, wherever it ends. -/
theorem queue_flush
    {clock now : α}
    (now_eq : gate.reading clock = now) :
    (gate.flush clock).state.queue = (gate.relieved now).queue := by
  cases ended : (gate.flush clock).fault with
  | none =>
      obtain ⟨_, ⟨_, state_eq⟩ | ⟨_, state_eq⟩⟩ := flush_of_faultless now_eq ended
      · rw [state_eq, state_settle]
      · rw [state_eq, state_settle, state_probe]
  | some reason =>
      obtain ⟨_, state_eq⟩ | ⟨_, _, state_eq⟩ := flush_of_faulty now_eq ended
      · rw [state_eq]
      · rw [state_eq, state_probe]

/-- If the window has room, a flush begins with the chunk in front of the queue. -/
theorem head?_handedOver_flush
    {clock now : α}
    (now_eq : gate.reading clock = now)
    (free : (gate.refreshed now).controller.isCongested now = false) :
    (handedOver (gate.flush clock).events).head? = gate.queue.head? := by
  have accounts := accounts_flush clock gate
  unfold Accounts at accounts
  rw [queue_flush now_eq] at accounts
  cases front : gate.queue with
  | nil =>
      rw [front] at accounts
      rw [(List.append_eq_nil_iff.mp accounts).1]
  | cons chunk rest =>
      have shorter : (gate.relieved now).queue.length ≤ rest.length := by
        unfold relieved handOver
        rw [front]
        dsimp only
        rw [free, if_neg Bool.false_ne_true]
        apply Outcome.state_andThen
          (motive := fun current : Gate α =>
            current.queue.length ≤ rest.length)
        · rw [queue_pass]
        · intro _
          exact length_queue_handOver_le (queue_pass now chunk rest _)
      have some_handed : handedOver (gate.flush clock).events ≠ [] := by
        intro none_handed
        rw [none_handed, List.nil_append, front] at accounts
        rw [accounts, List.length_cons] at shorter
        omega
      rw [← front, ← accounts, List.head?_append_of_ne_nil _ some_handed]

/-! ## Where an action flushes -/

/-- How a gate at which an action flushes comes from the gate that it happens to. -/
structure Enters (gate : Gate α) (clock : α) (action : Action α)
    (entry : Gate α) : Prop where
  /-- What the action brings in is queued. -/
  queue : entry.queue = gate.queue ++ action.given
  /-- Nothing was handed over yet. -/
  position : entry.position = gate.position
  /-- The clocks are the same. -/
  reading : entry.reading = gate.reading
  /-- The controller has at most taken in an answer. -/
  controller : entry.controller = gate.controller ∨
    entry.controller = (gate.answeredAt clock).controller

/-- An alarm that is set once makes one attempt. -/
theorem entries_retry_of_setOnce
    {timer : Timer α}
    (set : gate.retry.SetOnce)
    (only : gate.retry.timers.armed = [timer])
    (clock : α) :
    gate.entries clock .retry = [gate.rung timer] := by
  unfold entries
  rw [only]
  dsimp only [Timers.earliest?, List.foldl_nil]
  rw [set.listeners]
  rfl

theorem enters_of_mem
    (ready : gate.retry.Ready)
    {clock : α}
    {action : Action α}
    {entry : Gate α}
    (member : entry ∈ gate.entries clock action) :
    Enters gate clock action entry := by
  cases action with
  | dataIn chunk =>
      rw [List.mem_singleton.mp member]
      exact ⟨rfl, rfl, rfl, .inl rfl⟩
  | probeAnswered =>
      rw [List.mem_singleton.mp member]
      exact ⟨(List.append_nil _).symm, rfl, rfl, .inr rfl⟩
  | close => contradiction
  | connect => contradiction
  | retry =>
      cases ready with
      | inl idle =>
          unfold entries at member
          rw [idle.armed] at member
          contradiction
      | inr set =>
          obtain ⟨timer, only, _⟩ := set.armed
          rw [entries_retry_of_setOnce set only] at member
          rw [List.mem_singleton.mp member]
          exact ⟨(List.append_nil _).symm, rfl, rfl, .inl rfl⟩

/-- An action that fails at a chunk does so in a flush, and it ends with the flush. -/
theorem exists_entry_of_faulty
    (ready : gate.retry.Ready)
    {clock : α}
    {action : Action α}
    (faulty : (gate.perform clock action).fault = some .forwardFailed) :
    ∃ entry ∈ gate.entries clock action,
      (entry.flush clock).fault = some .forwardFailed ∧
        (gate.perform clock action).state = (entry.flush clock).state := by
  cases action with
  | dataIn chunk =>
      exact ⟨gate.enqueue chunk, List.mem_singleton_self _, faulty, rfl⟩
  | probeAnswered =>
      unfold perform Gate.probeAnswered at faulty ⊢
      cases answered : (gate.withController
          (gate.controller.probeAnswered (gate.reading clock))).fault with
      | none =>
          rw [Outcome.andThen_of_faultless answered] at faulty ⊢
          exact ⟨gate.answeredAt clock, List.mem_singleton_self _, faulty, rfl⟩
      | some cause =>
          rw [Outcome.andThen_of_faulty answered] at faulty
          obtain ⟨_, _, broken | broken⟩ :=
            Controller.probeAnswered_of_faulty faulty
          all_goals contradiction
  | close =>
      unfold perform close at faulty
      rw [fault_resetRetry] at faulty
      contradiction
  | connect => contradiction
  | retry =>
      unfold perform at faulty ⊢
      cases ready with
      | inl idle =>
          rw [idle.armed] at faulty
          contradiction
      | inr set =>
          obtain ⟨timer, only, _⟩ := set.armed
          obtain ⟨state_eq, fault_eq⟩ := expire_of_setOnce set timer clock
          rw [entries_retry_of_setOnce set only]
          rw [only] at faulty ⊢
          refine ⟨gate.rung timer, List.mem_singleton_self _, ?_, state_eq⟩
          exact fault_eq.symm.trans faulty

/-- As long as nothing is handed over, the next flush for which the window has room
begins with the chunk that is in front now. -/
theorem head?_handedOver_later
    {later : List (α × Action α)}
    (ready : (gate.after later).retry.Ready)
    (nothing : gate.handedOverDuring later = [])
    {clock now : α}
    {action : Action α}
    {entry : Gate α}
    (member : entry ∈ (gate.after later).entries clock action)
    (now_eq : (gate.after later).reading clock = now)
    (free : (entry.refreshed now).controller.isCongested now = false) :
    (handedOver (entry.flush clock).events).head? =
      (gate.queue ++ givenDuring later ++ action.given).head? := by
  have enters := enters_of_mem ready member
  have account := handedOverDuring_append_queue_after gate later
  rw [nothing, List.nil_append] at account
  rw [← enters.reading] at now_eq
  rw [head?_handedOver_flush now_eq free, enters.queue, account]

end Steps

/-! ## Chunks that are lost -/

/-- A flush that fails for the receiver does so at one of its chunks, and until then the
controller knew the position. -/
theorem flush_of_forwardFailed
    {gate : Gate Binary64}
    (onRing : gate.position < Arithmetic.ringSize)
    (windowed : gate.controller.Windowed)
    {clock now : Binary64}
    (now_eq : gate.reading clock = now)
    (failed : (gate.flush clock).fault = some .forwardFailed) :
    ∃ sent chunk rest,
      gate.queue = sent ++ chunk :: rest ∧
        Tracked ((gate.refreshed now).passed now sent.length) ∧
        (gate.flush clock).state =
          ((gate.refreshed now).passed now sent.length).failedAt chunk rest := by
  obtain ⟨handedOver, state_eq⟩ | ⟨probe, _, _⟩ := flush_of_faulty now_eq failed
  · have reported : Tracked (gate.refreshed now) :=
      tracked_report onRing windowed now
    have queue : (gate.refreshed now).queue = gate.queue := rfl
    rw [state_eq]
    exact handOver_of_faulty
      (fun _ _ _ _ passed tracked => tracked.pass passed) queue handedOver reported
  · contradiction

/-- A chunk is handed over at most once, and the failure of its receiver loses it.  Take
any controller that was started, any link, and any actions at any readings, up to one in
which the receiver fails.  Then the gate is as it was just before the chunk in question
was taken, but with this chunk taken: the chunk has left the queue, it is no longer
counted as queued (as long as never more bytes were queued than a double can count),
and it is counted as handed over, of which only the controller was not told.  What was
handed over before it in the same flush stays so.  The next flush for which the window
has room begins with the chunk behind it, and whatever happens later, only the chunks
behind it and those that come in later are handed over. -/
theorem chunk_lost_to_fault
    (options : Options Binary64)
    (verifyByDefault : Bool)
    (start : Binary64)
    (controller : Controller Binary64)
    (link : Link)
    (reading : Binary64 → Binary64)
    (history : List (Binary64 × Action Binary64))
    (clock : Binary64)
    (action : Action Binary64)
    (started : Controller.start options verifyByDefault start = .ok controller) :
    let begun := fresh controller link reading
    let gate := begun.after history
    let outcome := gate.perform clock action
    outcome.fault = some .forwardFailed →
      ∃ entry ∈ gate.entries clock action, ∃ sent chunk rest,
        let now := reading clock
        let before := (entry.refreshed now).passed now sent.length
        gate.queue ++ action.given = sent ++ chunk :: rest ∧
          before.queue = chunk :: rest ∧
          before.controller.position = finite before.position ∧
          outcome.state = before.failedAt chunk rest ∧
          handedOver outcome.events = sent ++ [chunk] ∧
          (begun.peakBytes (history ++ [(clock, action)]) ≤ 2 ^ 53 →
            outcome.state.queuedBytes = finite (bytes rest)) ∧
          outcome.state.position =
            bytes (begun.handedOverDuring history ++ sent ++ [chunk]) %
              Arithmetic.ringSize ∧
          ∀ later,
            outcome.state.handedOverDuring later ++
                (outcome.state.after later).queue =
              rest ++ givenDuring later ∧
            (outcome.state.handedOverDuring later = [] →
              ∀ next step, ∀ entry ∈
                (outcome.state.after later).entries next step,
                (entry.refreshed (reading next)).controller.isCongested
                    (reading next) = false →
                  (handedOver (entry.flush next).events).head? =
                    (rest ++ givenDuring later ++ step.given).head?) := by
  intro begun gate outcome failed
  have drives : ∀ steps, Drives Controller.Windowed reading (begun.after steps) := by
    intro steps
    have beginning : Drives Controller.Windowed reading begun :=
      ⟨Controller.windowed_of_start started, rfl⟩
    exact beginning.after fun step _ _ action windowed =>
      windowed.perform (reading step.1) action
  have ready : ∀ steps, (begun.after steps).retry.Ready :=
    ready_after (.inl Alarm.idle_unused)
  have balanced : Balanced ([] ++ givenDuring history) gate :=
    (balanced_fresh controller link reading).after history
  obtain ⟨entry, member, flush_failed, state_eq⟩ :=
    exists_entry_of_faulty (ready history) failed
  have enters := enters_of_mem (ready history) member
  have now_eq : entry.reading clock = reading clock := by
    rw [enters.reading, (drives history).reading_eq]
  have windowed : entry.controller.Windowed := by
    have known := (drives history).controller
    obtain same | answered := enters.controller
    · rwa [same]
    · rw [answered]
      exact known.perform _ .probeAnswered
  have onRing : entry.position < Arithmetic.ringSize :=
    enters.position ▸ balanced.onRing
  obtain ⟨sent, chunk, rest, queue, tracked, lost⟩ :=
    flush_of_forwardFailed onRing windowed now_eq flush_failed
  have split : gate.queue ++ action.given = sent ++ chunk :: rest :=
    enters.queue.symm.trans queue
  have outcome_eq := state_eq.trans lost
  have outcome_queue : outcome.state.queue = rest := by rw [outcome_eq]; rfl
  have handed : handedOver outcome.events = sent ++ [chunk] := by
    have accounts := accounts_perform gate clock action
    unfold Accounts at accounts
    rw [split, List.append_cons, outcome_queue] at accounts
    exact List.append_cancel_right accounts
  refine ⟨entry, member, sent, chunk, rest, split, ?_, tracked.position, outcome_eq,
    handed, ?_, ?_, ?_⟩
  · rw [queue_passed]
    change entry.queue.drop _ = _
    rw [queue, List.drop_left]
  · intro bounded
    have counted := (counted_fresh controller link reading).after bounded
    rw [after_append] at counted
    rw [← outcome_queue]
    exact counted.queuedBytes
  · apply (balanced.perform clock action).position_eq
    have account := handedOverDuring_append_queue_after begun history
    have nothing_queued : begun.queue = [] := rfl
    rw [nothing_queued] at account
    rw [outcome_queue, ← account, List.append_assoc, List.append_assoc,
      List.append_assoc, List.singleton_append, split]
  · intro later
    have after_eq : outcome.state.after later =
        begun.after (history ++ (clock, action) :: later) := by
      rw [after_append, after_cons]
    have account := handedOverDuring_append_queue_after outcome.state later
    rw [← outcome_queue]
    refine ⟨account, fun nothing next step entry member free => ?_⟩
    refine head?_handedOver_later ?_ nothing member ?_ free
    · rw [after_eq]
      exact ready _
    · rw [after_eq, (drives _).reading_eq]

/-- A link whose receiver fails at its fourth chunk. -/
def fourthFails : Link :=
  ⟨true, [false, false, false, true], []⟩

/-- Three chunks that wait for an answer, of which the receiver fails at the
second one. -/
def waitingThree : Gate Binary64 :=
  (fresh .byDefault fourthFails id).after
    (threeChunks ++ [(0, .dataIn ⟨Array.replicate 600 0⟩),
      (0, .dataIn ⟨Array.replicate 700 0⟩)])

/-- The answer that makes room for them. -/
def secondLost : Result Binary64 :=
  waitingThree.perform (finite 10) .probeAnswered

theorem chunk_lost_to_fault_secondOfThree :
    secondLost.fault = some .forwardFailed ∧
      waitingThree.queue.map ByteArray.size = [500, 600, 700] ∧
      (∃ sent chunk rest,
        waitingThree.queue = sent ++ chunk :: rest ∧
          handedOver secondLost.events = sent ++ [chunk] ∧
          secondLost.state.queuedBytes = finite (bytes rest) ∧
          secondLost.state.handedOverDuring [(finite 10, .probeAnswered)] = rest) ∧
      secondLost.state.queue.map ByteArray.size = [700] ∧
      secondLost.state.position = 22100 ∧
      secondLost.state.controller.position = finite 21500 := by
  obtain ⟨failed, waiting, emptied, left, position, told⟩ :
      secondLost.fault = some .forwardFailed ∧
        waitingThree.queue.map ByteArray.size = [500, 600, 700] ∧
        (secondLost.state.after [(finite 10, .probeAnswered)]).queue = [] ∧
        secondLost.state.queue.map ByteArray.size = [700] ∧
        secondLost.state.position = 22100 ∧
        secondLost.state.controller.position = finite 21500 := by
    decide +kernel
  obtain ⟨_, _, sent, chunk, rest, split, _, _, _, handed, counted, _, later⟩ :=
    chunk_lost_to_fault ⟨none, none⟩ true 0 .byDefault fourthFails id _
      (finite 10) .probeAnswered Controller.start_byDefault failed
  have uncounted : secondLost.state.queuedBytes = finite (bytes rest) :=
    counted (by decide +kernel)
  have account : secondLost.state.handedOverDuring [(finite 10, .probeAnswered)] ++
      (secondLost.state.after [(finite 10, .probeAnswered)]).queue = rest ++ [] :=
    (later _).1
  rw [emptied, List.append_nil, List.append_nil] at account
  rw [Action.given, List.append_nil] at split
  exact ⟨failed, waiting, ⟨sent, chunk, rest, split, handed, uncounted, account⟩, left,
    position, told⟩

/-- A link whose receiver fails at its first chunk. -/
def firstFails : Link :=
  ⟨true, [true], []⟩

/-- A chunk at which the receiver fails is not put back. -/
theorem chunk_kept_at_fault_refuted :
    ¬∀ (link : Link) (history : List (Binary64 × Action Binary64))
        (clock : Binary64) (action : Action Binary64),
        let gate := (fresh .byDefault link id).after history
        let outcome := gate.perform clock action
        outcome.fault = some .forwardFailed →
          ∃ sent chunk rest,
            gate.queue ++ action.given = sent ++ chunk :: rest ∧
              handedOver outcome.events = sent ++ [chunk] ∧
              outcome.state.queue = chunk :: rest ∧
              outcome.state.queuedBytes = finite (bytes (chunk :: rest)) ∧
              outcome.state.position =
                (gate.position + bytes sent) % Arithmetic.ringSize := by
  intro kept
  let chunk : Chunk := ⟨Array.replicate 5 0⟩
  have failed : ((fresh .byDefault firstFails id).perform (0 : Binary64)
      (.dataIn chunk)).fault = some .forwardFailed := by decide +kernel
  have emptied : ((fresh .byDefault firstFails id).perform (0 : Binary64)
      (.dataIn chunk)).state.queue = [] := by decide +kernel
  obtain ⟨_, _, _, _, _, queue, _⟩ := kept firstFails [] 0 (.dataIn chunk) failed
  change ((fresh .byDefault firstFails id).perform (0 : Binary64)
    (.dataIn chunk)).state.queue = _ at queue
  rw [emptied] at queue
  contradiction

end Gate
end Backpressure
