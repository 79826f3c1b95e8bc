import Backpressure.Proofs.Gate.Burst
import Backpressure.Proofs.Gate.Retry

/-!
# Counting the bytes of a gate

A gate counts the bytes it holds back and the bytes it has handed over.  A fault can
end a flush between any two of its steps, but every step leaves both counts right:
what a chunk adds to the one it takes from the other before the receiver sees it.
The bytes held back are counted by doubles, so this count is right as long as there
are at most 2 ^ 53 of them.  Only the controller can be left behind, and the next
flush tells it the position.
-/

namespace Backpressure
namespace Gate

open Binary64

section Steps

variable {α : Type} {given : List Chunk} {gate : Gate α}

/-- An alarm that has rung is idle. -/
theorem ready_rung
    {timer : Timer α}
    (only : gate.retry.timers.armed = [timer]) :
    (gate.rung timer).retry.Ready :=
  .inl (Alarm.idle_reset_ring only (Fault α))

variable [Arithmetic α]

/-! ## What an action does to the queue and to the counts -/

/-- The gate when what an action brings in is queued. -/
def received (gate : Gate α) : Action α → Gate α
  | .dataIn chunk => gate.enqueue chunk
  | .probeAnswered | .close | .connect | .retry => gate

theorem queue_received (gate : Gate α) (action : Action α) :
    (gate.received action).queue = gate.queue ++ action.given := by
  cases action with
  | dataIn chunk => rfl
  | probeAnswered | close | connect | retry => exact (List.append_nil _).symm

@[simp] theorem position_received (gate : Gate α) (action : Action α) :
    (gate.received action).position = gate.position := by
  cases action with
  | dataIn chunk => rfl
  | probeAnswered | close | connect | retry => rfl

/-- A property of the queue and of the counts that taking a chunk keeps. -/
structure KeptByTaking (property : Gate α → Prop) : Prop where
  /-- It reads nothing else of a gate. -/
  of_eq : ∀ {gate other : Gate α}, property gate → other.queue = gate.queue →
    other.queuedBytes = gate.queuedBytes → other.position = gate.position →
      property other
  /-- Taking a chunk keeps it. -/
  take : ∀ {gate : Gate α} {chunk : Chunk} {rest : List Chunk},
    gate.queue = chunk :: rest → property gate → property (gate.take chunk rest)

namespace KeptByTaking

variable {property : Gate α → Prop} (kept : KeptByTaking property)
include kept

/-- Handing over a chunk keeps it, even if the receiver fails at the chunk. -/
theorem pass
    (now : α)
    {chunk : Chunk}
    {rest : List Chunk}
    (queue : gate.queue = chunk :: rest)
    (holds : property gate) :
    property (gate.pass now chunk rest).state := by
  unfold Gate.pass
  refine Outcome.state_andThen (motive := property) ?_ ?_
  · rw [state_forward]
    exact kept.of_eq (kept.take queue holds) rfl rfl rfl
  · exact fun forwarded => kept.of_eq forwarded rfl rfl rfl

/-- A flush keeps it, wherever it ends. -/
theorem flush (clock : α) (holds : property gate) :
    property (gate.flush clock).state := by
  refine state_flush ?_ ?_ ?_ ?_ holds
  · exact fun current => kept.of_eq current rfl rfl rfl
  · exact fun _ _ _ queue current => kept.pass _ queue current
  · intro _ current
    rw [state_probe]
    exact kept.of_eq current rfl rfl rfl
  · intro _ current
    rw [state_settle]
    exact kept.of_eq current rfl rfl rfl

theorem attempt
    (clock : α)
    (listeners : List Unit)
    (holds : property gate) :
    property (Gate.attempt clock listeners gate).state := by
  induction listeners generalizing gate with
  | nil => exact holds
  | cons listener rest inductionHypothesis =>
      unfold Gate.attempt
      refine Outcome.state_andThen ?_ inductionHypothesis
      refine Outcome.state_andThen ?_ (kept.flush clock)
      exact kept.of_eq holds rfl rfl rfl

/-- When what an action brings in is queued, the rest of the action only takes
chunks. -/
theorem perform
    (clock : α)
    (action : Action α)
    (holds : property (gate.received action)) :
    property (gate.perform clock action).state := by
  cases action with
  | dataIn chunk => exact kept.flush clock holds
  | probeAnswered =>
      refine Outcome.state_andThen ?_ (kept.flush clock)
      exact kept.of_eq holds rfl rfl rfl
  | close => exact kept.of_eq holds rfl rfl rfl
  | connect => exact kept.of_eq holds rfl rfl rfl
  | retry =>
      unfold Gate.perform
      cases Timers.earliest? gate.retry.timers.armed with
      | none => exact holds
      | some timer =>
          have ringing : property { gate with retry := gate.retry.ring timer } :=
            kept.of_eq holds rfl rfl rfl
          exact kept.attempt clock _ ringing

end KeptByTaking

/-! ## The position -/

/-- The position of a gate is right about what came in. -/
structure Balanced (given : List Chunk) (gate : Gate α) : Prop where
  /-- The position lies on the ring. -/
  onRing : gate.position < Arithmetic.ringSize
  /-- What is not queued has moved the position. -/
  position : gate.position + bytes gate.queue ≡ bytes given
    [MOD Arithmetic.ringSize]

theorem balanced_fresh
    (controller : Controller α)
    (link : Link)
    (reading : α → α) :
    Balanced [] (fresh controller link reading) where
  onRing := by norm_num [fresh, Arithmetic.ringSize]
  position := rfl

/-- What an action brings in is balanced by the queue. -/
theorem Balanced.received
    (balanced : Balanced given gate)
    (action : Action α) :
    Balanced (given ++ action.given) (gate.received action) where
  onRing := by
    rw [position_received]
    exact balanced.onRing
  position := by
    rw [position_received, queue_received, bytes_append, bytes_append,
      ← Nat.add_assoc]
    exact balanced.position.add_right (bytes action.given)

/-- A chunk that leaves the queue moves the position. -/
theorem keptByTaking_balanced :
    KeptByTaking (Balanced given : Gate α → Prop) where
  of_eq balanced queue _ position := {
    onRing := position ▸ balanced.onRing
    position := by
      rw [queue, position]
      exact balanced.position }
  take := by
    intro gate chunk rest queue balanced
    refine ⟨mod_ringSize_lt _, ?_⟩
    have moved : (gate.position + chunk.size) % Arithmetic.ringSize + bytes rest ≡
        gate.position + chunk.size + bytes rest [MOD Arithmetic.ringSize] :=
      (Nat.mod_modEq _ _).add_right _
    have position := balanced.position
    rw [queue, bytes_cons, ← Nat.add_assoc] at position
    exact moved.trans position

omit [Arithmetic α] in
/-- What came in and is not queued was handed over, so that the position counts it. -/
theorem Balanced.position_eq
    (balanced : Balanced given gate)
    {handedOver : List Chunk}
    (split : handedOver ++ gate.queue = given) :
    gate.position = bytes handedOver % Arithmetic.ringSize := by
  have position := balanced.position
  rw [← split, bytes_append] at position
  rw [← Nat.mod_eq_of_lt balanced.onRing]
  exact position.add_right_cancel'

/-- Every action keeps the position right, faulty or not. -/
theorem Balanced.perform
    (balanced : Balanced given gate)
    (clock : α)
    (action : Action α) :
    Balanced (given ++ action.given) (gate.perform clock action).state :=
  keptByTaking_balanced.perform clock action (balanced.received action)

theorem Balanced.after
    (balanced : Balanced given gate)
    (history : List (α × Action α)) :
    Balanced (given ++ givenDuring history) (gate.after history) := by
  induction history generalizing given gate with
  | nil =>
      rw [givenDuring, List.flatMap_nil, List.append_nil]
      exact balanced
  | cons step rest inductionHypothesis =>
      have later := inductionHypothesis (balanced.perform step.1 step.2)
      rw [List.append_assoc] at later
      exact later

/-- The most bytes that are queued at a time during a history.  The queue is longest
when what an action brings in is queued and nothing has left yet. -/
def peakBytes (gate : Gate α) : List (α × Action α) → ℕ
  | [] => bytes gate.queue
  | (clock, action) :: rest =>
    max (bytes (gate.queue ++ action.given))
      ((gate.perform clock action).state.peakBytes rest)

@[simp] theorem peakBytes_nil (gate : Gate α) :
    gate.peakBytes [] = bytes gate.queue := rfl

@[simp] theorem peakBytes_cons
    (gate : Gate α)
    (step : α × Action α)
    (rest : List (α × Action α)) :
    gate.peakBytes (step :: rest) =
      max (bytes (gate.queue ++ step.2.given))
        ((gate.perform step.1 step.2).state.peakBytes rest) := rfl

/-! ## The alarm -/

/-- The alarm is idle or set once after any flush, wherever it ends. -/
theorem ready_flush
    (ready : gate.retry.Ready)
    (clock : α) :
    (gate.flush clock).state.retry.Ready := by
  refine state_flush (motive := fun current : Gate α => current.retry.Ready)
    id ?_ ?_ ?_ ready
  · intro current chunk rest _ ready
    unfold pass
    refine Outcome.state_andThen
      (motive := fun current : Gate α => current.retry.Ready) ?_ id
    rw [state_forward]
    exact ready
  · intro current ready
    rw [state_probe]
    exact ready
  · intro current ready
    exact (follows_settle ready clock _).ready

/-- So it is after every action. -/
theorem ready_perform
    (ready : gate.retry.Ready)
    (clock : α)
    (action : Action α) :
    (gate.perform clock action).state.retry.Ready := by
  cases action with
  | dataIn chunk =>
      have enqueued : (gate.enqueue chunk).retry.Ready := ready
      exact ready_flush enqueued clock
  | probeAnswered =>
      refine Outcome.state_andThen
        (motive := fun current : Gate α => current.retry.Ready) ready ?_
      exact fun answered => ready_flush answered clock
  | close => exact .inl (ready.reset (Fault α))
  | connect => exact ready
  | retry =>
      unfold Gate.perform
      cases ready with
      | inl idle =>
          rw [idle.armed]
          exact .inl idle
      | inr set =>
          obtain ⟨timer, only, _⟩ := set.armed
          rw [only]
          change (gate.expire timer clock).state.retry.Ready
          rw [(expire_of_setOnce set timer clock).1]
          exact ready_flush (ready_rung only) clock

theorem ready_after
    (ready : gate.retry.Ready)
    (history : List (α × Action α)) :
    (gate.after history).retry.Ready := by
  induction history generalizing gate with
  | nil => exact ready
  | cons step rest inductionHypothesis =>
      exact inductionHypothesis (ready_perform ready step.1 step.2)

/-- Whether an action makes the gate flush.  An alarm without a timer does not
ring. -/
def flushes (gate : Gate α) : Action α → Bool
  | .dataIn _ => true
  | .probeAnswered => true
  | .close => false
  | .connect => false
  | .retry => (Timers.earliest? gate.retry.timers.armed).isSome

end Steps

/-! ## The queued bytes -/

/-- The queued bytes are counted, and they are few enough for a double to count. -/
structure Counted (gate : Gate Binary64) : Prop where
  /-- The bytes of the queue are counted. -/
  queuedBytes : gate.queuedBytes = finite (bytes gate.queue)
  /-- Up to here every whole number is a double. -/
  bounded : bytes gate.queue ≤ 2 ^ 53

section Counts

variable {gate : Gate Binary64}

theorem counted_fresh
    (controller : Controller Binary64)
    (link : Link)
    (reading : Binary64 → Binary64) :
    Counted (fresh controller link reading) where
  queuedBytes := literal_zero
  bounded := Nat.zero_le _

/-- What an action brings in is counted. -/
theorem Counted.received
    (counted : Counted gate)
    {action : Action Binary64}
    (bounded : bytes (gate.queue ++ action.given) ≤ 2 ^ 53) :
    Counted (gate.received action) where
  queuedBytes := by
    cases action with
    | dataIn chunk =>
        have total : bytes (gate.queue ++ [chunk]) = bytes gate.queue + chunk.size := by
          rw [bytes_append, bytes_cons, bytes_nil, Nat.add_zero]
        change gate.queuedBytes + (chunk.size : Binary64) =
          finite (bytes (gate.queue ++ [chunk]) : ℕ)
        change bytes (gate.queue ++ [chunk]) ≤ 2 ^ 53 at bounded
        rw [total] at bounded ⊢
        rw [counted.queuedBytes, natCast_eq_of_le (by omega), add_finite,
          ← Nat.cast_add, round_natCast_of_le bounded]
    | probeAnswered | close | connect | retry => exact counted.queuedBytes
  bounded := by
    rw [queue_received]
    exact bounded

/-- A chunk that leaves the queue is no longer counted. -/
theorem keptByTaking_counted : KeptByTaking Counted where
  of_eq counted queue queuedBytes _ := {
    queuedBytes := by
      rw [queue, queuedBytes]
      exact counted.queuedBytes
    bounded := queue ▸ counted.bounded }
  take := by
    intro gate chunk rest queue counted
    have bounded := counted.bounded
    rw [queue, bytes_cons] at bounded
    have rest_bounded : bytes rest ≤ 2 ^ 53 := by omega
    refine ⟨?_, rest_bounded⟩
    change gate.queuedBytes - (chunk.size : Binary64) = finite (bytes rest : ℕ)
    rw [counted.queuedBytes, queue, bytes_cons, natCast_eq_of_le (by omega),
      subtract_finite, Nat.cast_add, add_sub_cancel_left,
      round_natCast_of_le rest_bounded]

/-- As long as no more bytes are queued than a double can count, they are counted. -/
theorem Counted.after
    (counted : Counted gate)
    {history : List (Binary64 × Action Binary64)}
    (bounded : gate.peakBytes history ≤ 2 ^ 53) :
    Counted (gate.after history) := by
  induction history generalizing gate with
  | nil => exact counted
  | cons step rest inductionHypothesis =>
      rw [peakBytes_cons, max_le_iff] at bounded
      obtain ⟨now, later⟩ := bounded
      have performed :=
        keptByTaking_counted.perform step.1 step.2 (counted.received now)
      exact inductionHypothesis performed later

/-- Beyond that, one byte more may not be counted. -/
example : finite (2 ^ 53) + 1 = finite (2 ^ 53) := by
  decide +kernel

end Counts

/-! ## The position of the controller -/

end Gate
end Backpressure
