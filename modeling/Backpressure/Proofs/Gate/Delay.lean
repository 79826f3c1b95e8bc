import Backpressure.Proofs.Controller.Arrival
import Backpressure.Proofs.Controller.Checks
import Backpressure.Proofs.Gate.Steps

/-!
# Faultless actions and the delays that they set

A gate whose link takes everything can fail only through its controller, and it sets
only the delays that its controller estimates.  So what holds of the reports to a
controller and of these estimates holds of all actions of the gate: at finite clock
readings no action fails, and if no two readings are more than 2 ^ 800 milliseconds
apart, then every delay that is set is a whole number of milliseconds, at least one.
-/

namespace Backpressure
namespace Gate

open Binary64

/-- The delay that a timer was armed with in an event. -/
def Event.delay? {α : Type} : Event α → Option α
  | .timer (.armed delay) => some delay
  | .timer .cancelled | .timer (.expired _) => none
  | .notice _ | .forwarded _ | .dropped _ | .probed | .retryPlanned _ _ => none

/-- The delays that timers were armed with, in order. -/
def armedDelays {α : Type} (events : List (Event α)) : List α :=
  events.filterMap Event.delay?

@[simp] theorem armedDelays_map_notice {α : Type} (notices : List (Notice α)) :
    armedDelays (notices.map Event.notice) = [] := by
  induction notices with
  | nil => rfl
  | cons notice rest inductionHypothesis => exact inductionHypothesis

section Steps

variable {α : Type} {property : Controller α → Prop} {proper : α → Prop}
variable {reading : α → α} {gate : Gate α}

/-- A gate whose controller has a property and whose link takes everything. -/
structure Healthy
    (property : Controller α → Prop)
    (reading : α → α)
    (gate : Gate α) : Prop
    extends Drives property reading gate where
  /-- The link takes every chunk. -/
  chunkFailures : gate.link.chunkFailures = []
  /-- The link takes every probe. -/
  probeFailures : gate.link.probeFailures = []

/-- What changes neither the controller nor the link keeps a gate healthy. -/
theorem Healthy.of_eq
    {other : Gate α}
    (healthy : Healthy property reading gate)
    (sameController : other.controller = gate.controller)
    (sameReading : other.reading = gate.reading)
    (sameLink : other.link = gate.link) :
    Healthy property reading other where
  toDrives := healthy.toDrives.of_eq sameController sameReading
  chunkFailures := sameLink ▸ healthy.chunkFailures
  probeFailures := sameLink ▸ healthy.probeFailures

/-- An operation that does not fail, leaves a healthy gate and sets only proper
delays. -/
structure Safe
    (property : Controller α → Prop)
    (proper : α → Prop)
    (reading : α → α)
    (result : Result α) : Prop where
  /-- The operation does not fail. -/
  faultless : result.fault = none
  /-- The gate is healthy afterwards. -/
  healthy : Healthy property reading result.state
  /-- The delays that were set are proper. -/
  delays : ∀ delay ∈ armedDelays result.events, proper delay

theorem safe_done (healthy : Healthy property reading gate) :
    Safe property proper reading (.done gate) :=
  ⟨rfl, healthy, fun delay member => by contradiction⟩

theorem Safe.andThen
    {first : Result α}
    {second : Gate α → Result α}
    (early : Safe property proper reading first)
    (late : Safe property proper reading (second first.state)) :
    Safe property proper reading (first.andThen second) := by
  rw [Outcome.andThen_of_faultless early.faultless]
  refine ⟨late.faultless, late.healthy, ?_⟩
  intro delay member
  simp only [armedDelays, List.filterMap_append, List.mem_append] at member
  cases member with
  | inl earlier => exact early.delays delay earlier
  | inr later => exact late.delays delay later

/-- A faultless report to the controller that keeps its property is safe. -/
theorem safe_withController
    (healthy : Healthy property reading gate)
    {result : Controller.Result α}
    (kept : result.fault = none ∧ property result.state) :
    Safe property proper reading (gate.withController result) where
  faultless := kept.1
  healthy := {
    controller := kept.2
    reading_eq := healthy.reading_eq
    chunkFailures := healthy.chunkFailures
    probeFailures := healthy.probeFailures }
  delays := by
    intro delay member
    change delay ∈ armedDelays (result.events.map Event.notice) at member
    rw [armedDelays_map_notice] at member
    contradiction

/-- Stopping the alarm sets no delay. -/
theorem safe_resetRetry (healthy : Healthy property reading gate) :
    Safe property proper reading gate.resetRetry where
  faultless := fault_resetRetry gate
  healthy := healthy.of_eq rfl rfl rfl
  delays := by
    intro delay member
    unfold resetRetry withRetry Alarm.reset at member
    split at member <;> contradiction

theorem safe_forward
    (chunk : Chunk)
    (healthy : Healthy property reading gate) :
    Safe property proper reading (gate.forward chunk) := by
  have takes : gate.link.chunkFails = false := by
    unfold Link.chunkFails
    rw [healthy.chunkFailures]
    rfl
  refine ⟨?_, ?_, ?_⟩
  · unfold forward
    split
    · simp [takes]
    · rfl
  · rw [state_forward]
    refine ⟨healthy.toDrives.of_eq rfl rfl, ?_, ?_⟩
    · unfold linkAfterChunk
      split
      · simp [Link.afterChunk, healthy.chunkFailures]
      · exact healthy.chunkFailures
    · unfold linkAfterChunk
      split
      · exact healthy.probeFailures
      · exact healthy.probeFailures
  · intro delay member
    unfold forward at member
    split at member
    · simp [takes, armedDelays, Event.delay?] at member
    · simp [armedDelays, Event.delay?] at member

variable [Arithmetic α]

/-- What every report to a controller does at a reading without a fault, and what the
property that it keeps says about the delay before an attempt. -/
structure Behaves
    (property : Controller α → Prop)
    (proper : α → Prop)
    (now : α) : Prop where
  /-- No report fails, and every report keeps the property. -/
  perform : ∀ {controller : Controller α} (action : Controller.Action α),
    property controller → (controller.perform now action).fault = none ∧
      property (controller.perform now action).state
  /-- The delay is proper. -/
  delay : ∀ {gate : Gate α}, property gate.controller → proper (gate.retryDelay now)

section Flush

variable {now : α} (behaves : Behaves property proper now)
include behaves

theorem safe_report (healthy : Healthy property reading gate) :
    Safe property proper reading (gate.report now) :=
  safe_withController healthy
    (behaves.perform (.recordProgress _) healthy.controller)

theorem safe_pass
    (healthy : Healthy property reading gate)
    (chunk : Chunk)
    (rest : List Chunk) :
    Safe property proper reading (gate.pass now chunk rest) := by
  have taken : Healthy property reading (gate.take chunk rest) :=
    healthy.of_eq rfl rfl rfl
  have forwarded : Safe property proper reading
      ((gate.take chunk rest).forward chunk) := safe_forward chunk taken
  exact forwarded.andThen (safe_report behaves forwarded.healthy)

theorem safe_handOver
    (chunks : List Chunk)
    (healthy : Healthy property reading gate) :
    Safe property proper reading (gate.handOver now chunks) := by
  induction chunks generalizing gate with
  | nil => exact safe_done healthy
  | cons chunk rest inductionHypothesis =>
      unfold handOver
      split
      · exact safe_done healthy
      · have passed := safe_pass behaves healthy chunk rest
        exact passed.andThen (inductionHypothesis passed.healthy)

theorem safe_probe (healthy : Healthy property reading gate) :
    Safe property proper reading (gate.probe now) := by
  have noted : Safe property proper reading
      (gate.withController (gate.controller.probeSent now)) :=
    safe_withController healthy (behaves.perform .probeSent healthy.controller)
  apply noted.andThen
  have takes : gate.link.probeFails = false := by
    unfold Link.probeFails
    rw [healthy.probeFailures]
    rfl
  have takesNoted : (gate.withController
      (gate.controller.probeSent now)).state.link.probeFails = false := takes
  simp only [takesNoted, Outcome.andThen_reporting]
  refine ⟨rfl, ?_, ?_⟩
  · refine ⟨noted.healthy.toDrives.of_eq rfl rfl,
      noted.healthy.chunkFailures, ?_⟩
    change List.tail _ = []
    rw [noted.healthy.probeFailures, List.tail_nil]
  · intro delay member
    contradiction

theorem safe_settle
    (clock : α)
    (healthy : Healthy property reading gate) :
    Safe property proper reading (gate.settle clock now) := by
  unfold settle scheduleRetry
  split
  · split
    · exact safe_resetRetry healthy
    · exact safe_done healthy
  · split
    · exact safe_done healthy
    · refine ⟨rfl, healthy.of_eq rfl rfl rfl, ?_⟩
      intro delay member
      have delay_eq : gate.retryDelay now = delay := by
        simpa [armedDelays, Event.delay?, withRetry, Outcome.within,
          Alarm.start] using member
      rw [← delay_eq]
      exact behaves.delay healthy.controller

end Flush

/-! ## Flushes and actions -/

variable {clock : α} (behaves : Behaves property proper (reading clock))
include behaves

theorem safe_flush (healthy : Healthy property reading gate) :
    Safe property proper reading (gate.flush clock) := by
  have now_eq : gate.reading clock = reading clock := by
    rw [healthy.reading_eq]
  unfold flush
  simp only [now_eq]
  have reported := safe_report behaves healthy
  apply reported.andThen
  have sent := safe_handOver behaves (gate.report (reading clock)).state.queue
    reported.healthy
  apply sent.andThen
  split
  · have probed := safe_probe behaves sent.healthy
    exact probed.andThen (safe_settle behaves clock probed.healthy)
  · exact (safe_done sent.healthy).andThen (safe_settle behaves clock sent.healthy)

theorem safe_attempt
    (listeners : List Unit)
    (healthy : Healthy property reading gate) :
    Safe property proper reading (attempt clock listeners gate) := by
  induction listeners generalizing gate with
  | nil => exact safe_done healthy
  | cons listener rest inductionHypothesis =>
      have reset : Safe property proper reading gate.resetRetry :=
        safe_resetRetry healthy
      have flushed := reset.andThen (safe_flush behaves reset.healthy)
      exact flushed.andThen (inductionHypothesis flushed.healthy)

theorem safe_perform
    (action : Action α)
    (healthy : Healthy property reading gate) :
    Safe property proper reading (gate.perform clock action) := by
  cases action with
  | dataIn chunk =>
      have enqueued : Healthy property reading (gate.enqueue chunk) :=
        healthy.of_eq rfl rfl rfl
      exact safe_flush behaves enqueued
  | probeAnswered =>
      have now_eq : gate.reading clock = reading clock := by
        rw [healthy.reading_eq]
      have kept := behaves.perform .probeAnswered healthy.controller
      rw [← now_eq] at kept
      have answered : Safe property proper reading
          (gate.withController
            (gate.controller.probeAnswered (gate.reading clock))) :=
        safe_withController healthy kept
      exact answered.andThen (safe_flush behaves answered.healthy)
  | close => exact safe_resetRetry healthy
  | connect =>
      exact safe_done ⟨healthy.toDrives.of_eq rfl rfl, healthy.chunkFailures,
        healthy.probeFailures⟩
  | retry =>
      unfold perform
      cases Timers.earliest? gate.retry.timers.armed with
      | none => exact safe_done healthy
      | some timer =>
          have rung : Healthy property reading
              { gate with retry := gate.retry.ring timer } :=
            healthy.of_eq rfl rfl rfl
          exact safe_attempt behaves _ rung

omit behaves in
/-- Every action of a history is safe. -/
theorem safe_outcomes
    (healthy : Healthy property reading gate)
    {history : List (α × Action α)}
    (behaves : ∀ step ∈ history, Behaves property proper (reading step.1)) :
    ∀ outcome ∈ gate.outcomes history, Safe property proper reading outcome := by
  induction history generalizing gate with
  | nil =>
      intro outcome member
      contradiction
  | cons step rest inductionHypothesis =>
      have now := safe_perform (behaves step List.mem_cons_self) step.2 healthy
      intro outcome member
      rw [outcomes, List.mem_cons] at member
      cases member with
      | inl first =>
          rw [first]
          exact now
      | inr later =>
          refine inductionHypothesis now.healthy ?_ outcome later
          intro next next_mem
          exact behaves next (List.mem_cons_of_mem _ next_mem)

end Steps

/-! ## Finite readings -/

/-- At finite readings no report fails, whatever the delays are. -/
theorem behaves_ordered
    {now : Binary64}
    (nowFinite : now.IsFinite) :
    Behaves Controller.Ordered (fun _ => True) now where
  perform action ordered := ordered.perform nowFinite action
  delay _ := trivial

/-! ## Delays -/

/-- A delay of whole milliseconds, at least one. -/
def Delay (delay : Binary64) : Prop :=
  ∃ milliseconds : ℕ, delay = finite milliseconds ∧ 1 ≤ milliseconds

section Spaced

variable {readings : Set Binary64} (spaced : Spaced 800 readings)
variable {now : Binary64} (now_mem : now ∈ readings)
include spaced now_mem

/-- The delay before an attempt is whole. -/
theorem delay_retryDelay
    {gate : Gate Binary64}
    (sound : gate.controller.Sound readings) :
    Delay (gate.retryDelay now) := by
  unfold retryDelay
  cases estimated : gate.controller.untilUncongested now with
  | none =>
      exact ⟨retryInterval, natCast_eq (by norm_num [retryInterval]),
        by norm_num [retryInterval]⟩
  | some wait =>
      obtain ⟨milliseconds, rfl, _⟩ := Controller.untilUncongested_whole spaced
        sound now_mem estimated
      refine ⟨max 1 milliseconds, ?_, le_max_left _ _⟩
      dsimp only
      rw [literal_one, larger_finite, Nat.cast_max, Nat.cast_one]

/-- At readings that are not absurdly far apart all delays are whole. -/
theorem behaves_sound : Behaves (Controller.Sound readings) Delay now where
  perform action sound := sound.perform spaced.finitely now_mem action
  delay := delay_retryDelay spaced now_mem

end Spaced

end Gate
end Backpressure
