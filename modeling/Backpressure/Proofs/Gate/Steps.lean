import Mathlib.Data.Set.Defs
import Backpressure.Gate.Action
import Backpressure.Proofs.Controller.Steps

/-!
# The steps of a gate

What each step of a gate changes and what it leaves alone, and how properties
that every step keeps are carried through a hand-over, a flush, an action and a
whole history.
-/

namespace Backpressure
namespace Gate

variable {α : Type}

/-! ## Histories -/

/-- The chunks that an action brings in. -/
def Action.given : Action α → List Chunk
  | .dataIn chunk => [chunk]
  | .probeAnswered | .close | .connect | .retry => []

/-- The chunks that a history brings in, in order. -/
def givenDuring (history : List (α × Action α)) : List Chunk :=
  history.flatMap fun step => step.2.given

/-- The clock readings that a controller sees in a history. -/
def readingsDuring
    (start : α)
    (reading : α → α)
    (history : List (α × Action α)) : Set α :=
  {now | now ∈ start :: history.map fun step => reading step.1}

/-- Whether none of the actions of a history fails. -/
def Faultless
    [Arithmetic α]
    (gate : Gate α)
    (history : List (α × Action α)) : Prop :=
  ∀ outcome ∈ gate.outcomes history, outcome.fault = none

instance decidableFaultless
    [Arithmetic α]
    (gate : Gate α)
    (history : List (α × Action α)) :
    Decidable (gate.Faultless history) :=
  inferInstanceAs (Decidable (∀ outcome ∈ gate.outcomes history, _))

theorem faultless_cons
    [Arithmetic α]
    {gate : Gate α}
    {step : α × Action α}
    {rest : List (α × Action α)} :
    gate.Faultless (step :: rest) ↔
      (gate.perform step.1 step.2).fault = none ∧
        (gate.perform step.1 step.2).state.Faultless rest := by
  simp [Faultless, outcomes]

theorem faultless_append
    [Arithmetic α]
    {gate : Gate α}
    {first second : List (α × Action α)} :
    gate.Faultless (first ++ second) ↔
      gate.Faultless first ∧ (gate.after first).Faultless second := by
  induction first generalizing gate with
  | nil => simp [Faultless, outcomes]
  | cons step rest inductionHypothesis =>
      rw [List.cons_append, faultless_cons, faultless_cons, after_cons,
        inductionHypothesis, and_assoc]

/-- Three chunks at once, of which the last one has to wait. -/
def threeChunks [Arithmetic α] : List (α × Action α) :=
  [(0, .dataIn ⟨Array.replicate 1000 0⟩),
    (0, .dataIn ⟨Array.replicate 20000 0⟩),
    (0, .dataIn ⟨Array.replicate 500 0⟩)]

/-- A gate whose controller has a property and that reads given clocks. -/
structure Drives
    (property : Controller α → Prop)
    (reading : α → α)
    (gate : Gate α) : Prop where
  /-- The controller has the property. -/
  controller : property gate.controller
  /-- The gate reads these clocks. -/
  reading_eq : gate.reading = reading

/-- What changes neither the controller nor the clocks keeps both. -/
theorem Drives.of_eq
    {property : Controller α → Prop}
    {reading : α → α}
    {gate other : Gate α}
    (drives : Drives property reading gate)
    (sameController : other.controller = gate.controller)
    (sameReading : other.reading = gate.reading) :
    Drives property reading other :=
  ⟨sameController ▸ drives.controller, sameReading.trans drives.reading_eq⟩

/-! ## Frames -/

/-- The alarm can be stopped without a fault. -/
@[simp] theorem fault_resetRetry (gate : Gate α) :
    gate.resetRetry.fault = none := by
  simp [resetRetry, withRetry]

@[simp] theorem state_resetRetry (gate : Gate α) :
    gate.resetRetry.state =
      { gate with
        retry := (gate.retry.reset : Outcome _ (Fault α) _).state } := rfl

/-- The link after a chunk was given to it or dropped. -/
def linkAfterChunk (gate : Gate α) : Link :=
  if gate.link.connected then gate.link.afterChunk else gate.link

/-- Forwarding changes nothing but the link. -/
@[simp] theorem state_forward (chunk : Chunk) (gate : Gate α) :
    (gate.forward chunk).state = { gate with link := gate.linkAfterChunk } := by
  unfold forward linkAfterChunk
  by_cases connected : gate.link.connected
  · by_cases fails : gate.link.chunkFails <;>
      simp [connected, fails, Outcome.failed, Outcome.done]
  · simp [connected]

variable [Arithmetic α]

@[simp] theorem state_report (now : α) (gate : Gate α) :
    (gate.report now).state =
      { gate with
        controller :=
          (gate.controller.recordProgress now (gate.position : α)).state } :=
  rfl

@[simp] theorem fault_report (now : α) (gate : Gate α) :
    (gate.report now).fault = none := by
  simp [report, withController]

/-- The chunk has left the queue even if the receiver failed at it. -/
@[simp] theorem queue_pass
    (now : α)
    (chunk : Chunk)
    (rest : List Chunk)
    (gate : Gate α) :
    (gate.pass now chunk rest).state.queue = rest := by
  unfold pass
  refine Outcome.state_andThen
    (motive := fun current : Gate α => current.queue = rest) ?_ ?_
  · simp [take]
  · intro queue
    simpa using queue

/-- The gate after a chunk was handed over and reported. -/
theorem state_pass_of_faultless
    {now : α}
    {chunk : Chunk}
    {rest : List Chunk}
    {gate : Gate α}
    (faultless : (gate.pass now chunk rest).fault = none) :
    (gate.pass now chunk rest).state =
      { gate.take chunk rest with
        link := gate.linkAfterChunk
        controller := (gate.controller.recordProgress now
          ((gate.take chunk rest).position : α)).state } := by
  unfold pass at faultless ⊢
  rw [Outcome.fault_andThen_eq_none_iff] at faultless
  rw [Outcome.andThen_of_faultless faultless.1]
  simp [take, linkAfterChunk]

/-- Sending a probe changes the controller and the link, even if the link fails
at it. -/
@[simp] theorem state_probe (now : α) (gate : Gate α) :
    (gate.probe now).state =
      { gate with
        controller := (gate.controller.probeSent now).state
        link := gate.link.afterProbe } := by
  unfold probe
  rw [Outcome.andThen_of_faultless (by simp [withController])]
  by_cases fails : gate.link.probeFails <;>
    simp [withController, Outcome.within, Outcome.failed, Outcome.done, fails]

@[simp] theorem fault_scheduleRetry (clock now : α) (gate : Gate α) :
    (gate.scheduleRetry clock now).fault = none := by
  unfold scheduleRetry
  split
  · rfl
  · simp [withRetry, Alarm.start]

@[simp] theorem fault_settle (clock now : α) (gate : Gate α) :
    (gate.settle clock now).fault = none := by
  unfold settle
  split
  · split <;> simp
  · simp

/-- The alarm that a gate is left with when its hand-over is done. -/
def settledRetry (clock now : α) (gate : Gate α) : Alarm α Unit :=
  (gate.settle clock now).state.retry

/-- Settling changes nothing but the alarm. -/
theorem state_settle (clock now : α) (gate : Gate α) :
    (gate.settle clock now).state =
      { gate with retry := gate.settledRetry clock now } := by
  unfold settledRetry settle scheduleRetry
  split
  · split <;> rfl
  · split <;> rfl

/-- The gate after its controller took in an answer. -/
def answeredAt (clock : α) (gate : Gate α) : Gate α :=
  { gate with
    controller :=
      (gate.controller.probeAnswered (gate.reading clock)).state }

/-! ## What every step keeps -/

/-- What every pass keeps holds after a hand-over. -/
theorem state_handOver
    {motive : Gate α → Prop}
    {now : α}
    (keeps : ∀ (gate : Gate α) (chunk : Chunk) (rest : List Chunk),
      gate.queue = chunk :: rest →
      motive gate →
      motive (gate.pass now chunk rest).state)
    {gate : Gate α}
    {chunks : List Chunk}
    (queue : gate.queue = chunks)
    (holds : motive gate) :
    motive (gate.handOver now chunks).state := by
  induction chunks generalizing gate with
  | nil => exact holds
  | cons chunk rest inductionHypothesis =>
      unfold handOver
      split
      · exact holds
      · exact Outcome.state_andThen (keeps gate chunk rest queue holds)
          fun passed =>
            inductionHypothesis (queue_pass now chunk rest gate) passed

/-- What the steps of a flush keep holds after it, faulty or not. -/
theorem state_flush
    {motive : Gate α → Prop}
    {clock : α}
    {gate : Gate α}
    (report : motive gate →
      motive (gate.report (gate.reading clock)).state)
    (pass : ∀ (current : Gate α) (chunk : Chunk) (rest : List Chunk),
      current.queue = chunk :: rest →
      motive current →
      motive (current.pass (gate.reading clock) chunk rest).state)
    (probe : ∀ current : Gate α,
      motive current → motive (current.probe (gate.reading clock)).state)
    (settle : ∀ current : Gate α,
      motive current →
      motive (current.settle clock (gate.reading clock)).state)
    (holds : motive gate) :
    motive (gate.flush clock).state := by
  unfold flush
  refine Outcome.state_andThen (report holds) fun reported => ?_
  refine Outcome.state_andThen (state_handOver pass rfl reported) fun sent => ?_
  refine Outcome.state_andThen ?_ fun probed => settle _ probed
  split
  · exact probe _ sent
  · exact sent

/-! ## Faultless steps -/

/-- What every faultless pass keeps holds after a faultless hand-over. -/
theorem state_handOver_of_faultless
    {motive : Gate α → Prop}
    {now : α}
    (keeps : ∀ (gate : Gate α) (chunk : Chunk) (rest : List Chunk),
      gate.queue = chunk :: rest →
      (gate.pass now chunk rest).fault = none →
      motive gate →
      motive (gate.pass now chunk rest).state)
    {gate : Gate α}
    {chunks : List Chunk}
    (queue : gate.queue = chunks)
    (faultless : (gate.handOver now chunks).fault = none)
    (holds : motive gate) :
    motive (gate.handOver now chunks).state := by
  induction chunks generalizing gate with
  | nil => exact holds
  | cons chunk rest inductionHypothesis =>
      unfold handOver at faultless ⊢
      split at faultless
      · next congested =>
          rw [if_pos congested]
          exact holds
      · next free =>
          rw [Outcome.fault_andThen_eq_none_iff] at faultless
          rw [if_neg free, Outcome.andThen_of_faultless faultless.1]
          exact inductionHypothesis (queue_pass now chunk rest gate)
            faultless.2 (keeps gate chunk rest queue faultless.1 holds)

/-- A faultless hand-over stops for want of chunks or for congestion. -/
theorem handOver_stops
    {now : α}
    {gate : Gate α}
    {chunks : List Chunk}
    (queue : gate.queue = chunks)
    (faultless : (gate.handOver now chunks).fault = none) :
    (gate.handOver now chunks).state.queue = [] ∨
      (gate.handOver now chunks).state.controller.isCongested now = true := by
  induction chunks generalizing gate with
  | nil => exact .inl queue
  | cons chunk rest inductionHypothesis =>
      unfold handOver at faultless ⊢
      split at faultless
      · next congested =>
          rw [if_pos congested]
          exact .inr congested
      · next free =>
          rw [Outcome.fault_andThen_eq_none_iff] at faultless
          rw [if_neg free, Outcome.andThen_of_faultless faultless.1]
          exact inductionHypothesis (queue_pass now chunk rest gate) faultless.2

/-- A hand-over never makes the queue longer. -/
theorem length_queue_handOver_le
    {now : α}
    {gate : Gate α}
    {chunks : List Chunk}
    (queue : gate.queue = chunks) :
    (gate.handOver now chunks).state.queue.length ≤ chunks.length := by
  refine state_handOver
    (motive := fun current : Gate α => current.queue.length ≤ chunks.length)
    ?_ queue (queue ▸ Nat.le_refl _)
  intro current chunk rest current_queue bounded
  rw [current_queue, List.length_cons] at bounded
  rw [queue_pass]
  omega

/-- A hand-over that does not shorten the queue has done nothing. -/
theorem handOver_shortens
    {now : α}
    {gate : Gate α}
    {chunks : List Chunk}
    (queue : gate.queue = chunks) :
    (gate.handOver now chunks).state = gate ∨
      (gate.handOver now chunks).state.queue.length < chunks.length := by
  cases chunks with
  | nil => exact .inl rfl
  | cons chunk rest =>
      unfold handOver
      split
      · exact .inl rfl
      · right
        rw [List.length_cons, Nat.lt_succ_iff]
        refine Outcome.state_andThen (motive := fun current : Gate α =>
          current.queue.length ≤ rest.length) ?_ fun _ => ?_
        · exact Nat.le_of_eq
            (congrArg List.length (queue_pass now chunk rest gate))
        · exact length_queue_handOver_le (queue_pass now chunk rest gate)

/-- The gate of a flush that is about to hand over chunks. -/
def refreshed (now : α) (gate : Gate α) : Gate α :=
  (gate.report now).state

/-- The gate of a flush that has handed over chunks. -/
def relieved (now : α) (gate : Gate α) : Gate α :=
  ((gate.refreshed now).handOver now gate.queue).state

/-- A faultless flush hands over chunks without a fault.  If it handed over
none, no probe is sent. -/
theorem flush_of_faultless
    {clock now : α}
    {gate : Gate α}
    (now_eq : gate.reading clock = now)
    (faultless : (gate.flush clock).fault = none) :
    ((gate.refreshed now).handOver now gate.queue).fault = none ∧
      ((gate.relieved now = gate.refreshed now ∧
          (gate.flush clock).state =
            ((gate.relieved now).settle clock now).state) ∨
        ((gate.relieved now).queue.length < gate.queue.length ∧
          (gate.flush clock).state =
            (((gate.relieved now).probe now).state.settle clock now).state)) := by
  unfold flush at faultless
  simp only [now_eq, Outcome.fault_andThen_eq_none_iff] at faultless
  obtain ⟨reported, handedOver, probed, -⟩ := faultless
  have state_eq : (gate.flush clock).state =
      ((if (gate.relieved now).queue.length < gate.queue.length
          then (gate.relieved now).probe now
          else .done (gate.relieved now)).state.settle clock now).state := by
    unfold flush
    simp only [now_eq]
    rw [Outcome.state_andThen_of_faultless reported,
      Outcome.state_andThen_of_faultless handedOver,
      Outcome.state_andThen_of_faultless probed]
    rfl
  rw [state_eq]
  refine ⟨handedOver, ?_⟩
  obtain unchanged | shorter :
      gate.relieved now = gate.refreshed now ∨
        (gate.relieved now).queue.length < gate.queue.length :=
    handOver_shortens rfl
  · left
    refine ⟨unchanged, ?_⟩
    rw [if_neg]
    · rfl
    · rw [unchanged]
      exact Nat.lt_irrefl _
  · right
    refine ⟨shorter, ?_⟩
    rw [if_pos shorter]

/-! ## The controller of a gate -/

/-- A property of controllers that every report keeps at a reading. -/
def KeptAt (property : Controller α → Prop) (now : α) : Prop :=
  ∀ (controller : Controller α) (action : Controller.Action α),
    property controller → property (controller.perform now action).state

namespace Drives

variable {property : Controller α → Prop} {reading : α → α} {gate : Gate α}

/-- A flush drives the controller by reports of progress and of a probe. -/
theorem flush
    {clock : α}
    (kept : KeptAt property (reading clock))
    (drives : Drives property reading gate) :
    Drives property reading (gate.flush clock).state := by
  have now_eq : gate.reading clock = reading clock := by
    rw [drives.reading_eq]
  refine state_flush ?_ ?_ ?_ ?_ drives <;> rw [now_eq]
  · intro reported
    exact ⟨kept _ (.recordProgress _) reported.controller, reported.reading_eq⟩
  · intro current chunk rest _ taken
    unfold pass
    refine Outcome.state_andThen (motive := Drives property reading) ?_ ?_
    · exact taken.of_eq (by simp [take]) (by simp [take])
    · intro forwarded
      exact ⟨kept _ (.recordProgress _) forwarded.controller,
        forwarded.reading_eq⟩
  · intro current probed
    rw [state_probe]
    exact ⟨kept _ .probeSent probed.controller, probed.reading_eq⟩
  · intro current settled
    rw [state_settle]
    exact settled.of_eq rfl rfl

/-- The attempts that an alarm makes are flushes. -/
theorem attempt
    {clock : α}
    (kept : KeptAt property (reading clock))
    (listeners : List Unit)
    (drives : Drives property reading gate) :
    Drives property reading (Gate.attempt clock listeners gate).state := by
  induction listeners generalizing gate with
  | nil => exact drives
  | cons listener rest inductionHypothesis =>
      unfold Gate.attempt
      refine Outcome.state_andThen ?_ inductionHypothesis
      refine Outcome.state_andThen ?_ (flush kept)
      exact drives.of_eq rfl rfl

/-- Every action drives the controller by its reports alone. -/
theorem perform
    {clock : α}
    (kept : KeptAt property (reading clock))
    (action : Action α)
    (drives : Drives property reading gate) :
    Drives property reading (gate.perform clock action).state := by
  cases action with
  | dataIn chunk => exact flush kept (drives.of_eq rfl rfl)
  | probeAnswered =>
      have now_eq : gate.reading clock = reading clock := by
        rw [drives.reading_eq]
      refine Outcome.state_andThen ?_ (flush kept)
      refine ⟨?_, drives.reading_eq⟩
      exact now_eq ▸ kept _ .probeAnswered drives.controller
  | close => exact drives.of_eq rfl rfl
  | connect => exact drives.of_eq rfl rfl
  | retry =>
      unfold Gate.perform
      cases Timers.earliest? gate.retry.timers.armed with
      | none => exact drives
      | some timer => exact attempt kept _ (drives.of_eq rfl rfl)

/-- A history drives the controller by reports at its readings. -/
theorem after
    {history : List (α × Action α)}
    (kept : ∀ step ∈ history, KeptAt property (reading step.1))
    (drives : Drives property reading gate) :
    Drives property reading (gate.after history) := by
  induction history generalizing gate with
  | nil => exact drives
  | cons step rest inductionHypothesis =>
      rw [after_cons]
      refine inductionHypothesis (fun later member => ?_) ?_
      · exact kept later (List.mem_cons_of_mem _ member)
      · exact drives.perform (kept step List.mem_cons_self) step.2

end Drives

end Gate
end Backpressure
