import Backpressure.Proofs.Gate.Steps
import Backpressure.Proofs.Window

/-!
# Answers relieve a gate

The newest probe of a gate marks the last byte that was handed over.  So once
all probes are answered nothing is on its way, the window has room, and chunks
are held back only while an answer is still to come.  Every answer then shortens
the queue or the line of pending probes.
-/

namespace Backpressure
namespace Controller

open Binary64

variable {α : Type}

/-- The probe that was sent last. -/
def newest (controller : Controller α) : Probe α :=
  controller.pending.getLast?.getD controller.answered

variable [Arithmetic α]

@[simp] theorem newest_recordProgress
    (controller : Controller α)
    (now total : α) :
    (controller.recordProgress now total).state.newest = controller.newest := by
  simp [newest]

@[simp] theorem newest_probeSent (controller : Controller α) (now : α) :
    (controller.probeSent now).state.newest = controller.probeNow now := by
  simp [newest]

/-- An answer does not make another probe the newest one. -/
@[simp] theorem newest_probeAnswered (controller : Controller α) (now : α) :
    (controller.probeAnswered now).state.newest = controller.newest := by
  unfold newest
  rw [pending_probeAnswered, answered_probeAnswered]
  cases controller.pending with
  | nil => rfl
  | cons probe rest =>
      cases rest with
      | nil => rfl
      | cons next later => simp [List.getLast?_cons]

/-- If everything handed over was answered, nothing is on its way. -/
theorem inFlight_of_all_answered
    {controller : Controller α}
    (same : (controller.position == controller.answered.position) = true)
    (now : α) :
    controller.inFlight now = 0 := by
  unfold inFlight
  rw [if_pos same]

end Controller

namespace Gate

open Binary64

/-! ## The newest probe -/

/-- The controller of a gate knows how much was handed over. -/
structure Tracked (gate : Gate Binary64) : Prop where
  /-- The position lies on the ring. -/
  onRing : gate.position < Arithmetic.ringSize
  /-- The controller counts on the ring and keeps its windows within bounds. -/
  windowed : gate.controller.Windowed
  /-- The controller was told the position. -/
  position : gate.controller.position = finite gate.position

/-- The newest probe was sent at the position of the gate. -/
structure Marked (gate : Gate Binary64) : Prop extends Tracked gate where
  /-- The newest probe marks the last byte. -/
  newest : gate.controller.newest.position = finite gate.position

/-- What changes neither the controller nor the position keeps the mark. -/
theorem Marked.of_eq
    {gate other : Gate Binary64}
    (marked : Marked gate)
    (sameController : other.controller = gate.controller)
    (samePosition : other.position = gate.position) :
    Marked other where
  onRing := samePosition ▸ marked.onRing
  windowed := sameController ▸ marked.windowed
  position := by
    rw [sameController, samePosition]
    exact marked.position
  newest := by
    rw [sameController, samePosition]
    exact marked.newest

/-- After a report the controller knows the position, whatever it knew
before. -/
theorem tracked_report
    {gate : Gate Binary64}
    (onRing : gate.position < Arithmetic.ringSize)
    (windowed : gate.controller.Windowed)
    (now : Binary64) :
    Tracked (gate.report now).state where
  onRing := onRing
  windowed := windowed.perform now (.recordProgress _)
  position := by
    rw [state_report, Controller.position_recordProgress, windowed.counting]
    exact residue_natCast onRing

theorem Tracked.pass
    {gate : Gate Binary64}
    (tracked : Tracked gate)
    {now : Binary64}
    {chunk : Chunk}
    {rest : List Chunk}
    (faultless : (gate.pass now chunk rest).fault = none) :
    Tracked (gate.pass now chunk rest).state := by
  have onRing : (gate.take chunk rest).position < Arithmetic.ringSize :=
    mod_ringSize_lt _
  unfold Gate.pass at faultless ⊢
  rw [Outcome.fault_andThen_eq_none_iff] at faultless
  rw [Outcome.state_andThen_of_faultless faultless.1]
  refine tracked_report ?_ ?_ now
  · rw [state_forward]
    exact onRing
  · rw [state_forward]
    exact tracked.windowed

/-- After a faultless hand-over the controller knows the position, whatever it knew
before. -/
theorem tracked_relieved
    {gate : Gate Binary64}
    (onRing : gate.position < Arithmetic.ringSize)
    (windowed : gate.controller.Windowed)
    {now : Binary64}
    (faultless :
      ((gate.refreshed now).handOver now gate.queue).fault = none) :
    Tracked (gate.relieved now) := by
  refine state_handOver_of_faultless ?_ rfl faultless
    (tracked_report onRing windowed now)
  intro current chunk rest _ passed currentTracked
  exact currentTracked.pass passed

/-- A hand-over neither adds nor takes pending probes. -/
theorem pending_relieved
    {gate : Gate Binary64}
    {now : Binary64}
    (faultless :
      ((gate.refreshed now).handOver now gate.queue).fault = none) :
    (gate.relieved now).controller.pending = gate.controller.pending := by
  refine state_handOver_of_faultless
    (motive := fun current : Gate Binary64 =>
      current.controller.pending = gate.controller.pending)
    ?_ rfl faultless (by simp [refreshed])
  intro current chunk rest _ passed same
  rw [state_pass_of_faultless passed]
  simpa using same

/-! ## Chunks wait for answers only -/

/-- A marked gate without pending probes has room in its window. -/
theorem Marked.not_congested
    {gate : Gate Binary64}
    (marked : Marked gate)
    (answered : gate.controller.pending = [])
    (now : Binary64) :
    gate.controller.isCongested now = false := by
  have newest := marked.newest
  rw [Controller.newest, answered] at newest
  have same :
      (gate.controller.position == gate.controller.answered.position) = true := by
    have answered_position :
        gate.controller.answered.position = finite gate.position := newest
    rw [marked.position, answered_position, finite_beq_finite]
    exact decide_eq_true rfl
  unfold Controller.isCongested
  rw [Controller.inFlight_of_all_answered same]
  exact decide_eq_false marked.windowed.window.not_le_zero

/-- Chunks are held back only as long as an answer is to come. -/
def Waits (gate : Gate Binary64) : Prop :=
  gate.queue ≠ [] → gate.controller.pending ≠ []

/-- The chunks that are held back and the answers that are to come. -/
def outstanding (gate : Gate Binary64) : ℕ :=
  gate.queue.length + gate.controller.pending.length

/-- A gate whose newest probe marks the last byte and whose chunks wait for
answers only, with no more outstanding than in an earlier gate. -/
structure Settled (earlier gate : Gate Binary64) : Prop where
  /-- The newest probe marks the last byte. -/
  marked : Marked gate
  /-- Chunks wait for answers only. -/
  waits : Waits gate
  /-- No more is outstanding than before. -/
  outstanding_le : gate.outstanding ≤ earlier.outstanding
  /-- No chunk came into an empty queue. -/
  queue_nil : earlier.queue = [] → gate.queue = []

/-- A marked gate in which chunks wait for answers is settled. -/
theorem Settled.refl
    {gate : Gate Binary64}
    (marked : Marked gate)
    (waits : Waits gate) :
    Settled gate gate :=
  ⟨marked, waits, le_rfl, id⟩

theorem Settled.trans
    {first second third : Gate Binary64}
    (early : Settled first second)
    (late : Settled second third) :
    Settled first third where
  marked := late.marked
  waits := late.waits
  outstanding_le := late.outstanding_le.trans early.outstanding_le
  queue_nil empty := late.queue_nil (early.queue_nil empty)

/-- What changes neither the controller, the position nor the queue leaves a
gate settled. -/
theorem Settled.of_eq
    {gate other : Gate Binary64}
    (marked : Marked gate)
    (waits : Waits gate)
    (sameController : other.controller = gate.controller)
    (samePosition : other.position = gate.position)
    (sameQueue : other.queue = gate.queue) :
    Settled gate other where
  marked := marked.of_eq sameController samePosition
  waits := by
    unfold Waits
    rw [sameController, sameQueue]
    exact waits
  outstanding_le := by
    unfold outstanding
    rw [sameController, sameQueue]
  queue_nil empty := sameQueue.trans empty

/-- A flush that hands nothing over settles a marked gate: it does so only
because the window is full, and then an answer is to come. -/
theorem Marked.refreshed
    {gate : Gate Binary64}
    (marked : Marked gate)
    {now : Binary64}
    (faultless :
      ((gate.refreshed now).handOver now gate.queue).fault = none)
    (unchanged : gate.relieved now = gate.refreshed now) :
    Settled gate (gate.refreshed now) := by
  have tracked := tracked_relieved marked.onRing marked.windowed faultless
  have stops :
      (gate.relieved now).queue = [] ∨
        (gate.relieved now).controller.isCongested now = true := by
    have queue : (gate.refreshed now).queue = gate.queue := rfl
    exact handOver_stops queue faultless
  rw [unchanged] at tracked stops
  have refreshedMarked : Marked (gate.refreshed now) := by
    refine ⟨tracked, ?_⟩
    have newest := marked.newest
    simpa [Gate.refreshed] using newest
  have waits : Waits (gate.refreshed now) := by
    intro chunks answered
    have free := refreshedMarked.not_congested answered now
    cases stops with
    | inl empty => exact chunks empty
    | inr congested =>
        rw [free] at congested
        contradiction
  exact ⟨refreshedMarked, waits, by simp [outstanding, Gate.refreshed], id⟩

/-- A flush that hands chunks over settles a marked gate: the probe that it
sends marks the last of them, and there are fewer chunks than before. -/
theorem Tracked.probed
    {gate : Gate Binary64}
    (tracked : Tracked gate)
    {now : Binary64}
    (faultless :
      ((gate.refreshed now).handOver now gate.queue).fault = none)
    (shorter : (gate.relieved now).queue.length < gate.queue.length)
    {probed : Gate Binary64}
    (controller_eq : probed.controller =
      ((gate.relieved now).controller.probeSent now).state)
    (position_eq : probed.position = (gate.relieved now).position)
    (queue_eq : probed.queue = (gate.relieved now).queue) :
    Settled gate probed := by
  have relieved := tracked_relieved tracked.onRing tracked.windowed faultless
  have pending := pending_relieved faultless
  refine ⟨⟨⟨?_, ?_, ?_⟩, ?_⟩, ?_, ?_, ?_⟩
  · exact position_eq ▸ relieved.onRing
  · rw [controller_eq]
    exact relieved.windowed.perform _ .probeSent
  · rw [controller_eq, position_eq]
    exact relieved.position
  · rw [controller_eq, position_eq, Controller.newest_probeSent]
    exact relieved.position
  · intro chunks
    rw [controller_eq]
    simp
  · simp only [outstanding, controller_eq, queue_eq, Controller.state_probeSent,
      pending, List.length_append, List.length_singleton]
    omega
  · intro empty
    rw [empty] at shorter
    contradiction

/-- A faultless flush settles a marked gate. -/
theorem Marked.flush
    {gate : Gate Binary64}
    (marked : Marked gate)
    {clock : Binary64}
    (faultless : (gate.flush clock).fault = none) :
    Settled gate (gate.flush clock).state := by
  obtain ⟨handedOver, ⟨unchanged, state_eq⟩ | ⟨shorter, state_eq⟩⟩ :=
    flush_of_faultless rfl faultless
  · have settled := marked.refreshed handedOver unchanged
    rw [state_eq, unchanged, state_settle]
    exact settled.trans (.of_eq settled.marked settled.waits rfl rfl rfl)
  · rw [state_eq, state_settle, state_probe]
    exact marked.toTracked.probed handedOver shorter rfl rfl rfl

/-! ## Actions -/

theorem settled_attempt
    {clock : Binary64}
    {listeners : List Unit}
    {gate : Gate Binary64}
    (marked : Marked gate)
    (waits : Waits gate)
    (faultless : (attempt clock listeners gate).fault = none) :
    Settled gate (attempt clock listeners gate).state := by
  induction listeners generalizing gate with
  | nil => exact .refl marked waits
  | cons listener rest inductionHypothesis =>
      unfold attempt at faultless ⊢
      rw [Outcome.fault_andThen_eq_none_iff,
        Outcome.fault_andThen_eq_none_iff] at faultless
      obtain ⟨⟨stopped, flushed⟩, attempted⟩ := faultless
      rw [Outcome.state_andThen_of_faultless
        ((Outcome.fault_andThen_eq_none_iff _ _).mpr ⟨stopped, flushed⟩)]
      rw [Outcome.state_andThen_of_faultless stopped] at attempted ⊢
      have reset : Settled gate gate.resetRetry.state :=
        .of_eq marked waits rfl rfl rfl
      have flush := reset.marked.flush flushed
      exact (reset.trans flush).trans
        (inductionHypothesis flush.marked flush.waits attempted)

/-- An answer keeps the mark and takes one of the outstanding. -/
theorem Marked.answeredAt
    {gate : Gate Binary64}
    (marked : Marked gate)
    (clock : Binary64) :
    Marked (gate.answeredAt clock) where
  onRing := marked.onRing
  windowed := marked.windowed.perform (gate.reading clock) .probeAnswered
  position := by
    have position := marked.position
    simpa [Gate.answeredAt] using position
  newest := by
    have newest := marked.newest
    simpa [Gate.answeredAt] using newest

/-- Whether an action is an answer. -/
def Action.answers : Action Binary64 → ℕ
  | .probeAnswered => 1
  | .dataIn _ | .close | .connect | .retry => 0

/-- An answer settles a settled gate and takes one of the outstanding, unless
the queue is empty. -/
theorem settled_probeAnswered
    {gate : Gate Binary64}
    (marked : Marked gate)
    (waits : Waits gate)
    {clock : Binary64}
    (faultless : ((gate.answeredAt clock).flush clock).fault = none) :
    Settled gate ((gate.answeredAt clock).flush clock).state ∧
      (((gate.answeredAt clock).flush clock).state.queue = [] ∨
        ((gate.answeredAt clock).flush clock).state.outstanding + 1 ≤
          gate.outstanding) := by
  have flushed := (marked.answeredAt clock).flush faultless
  have pending : (gate.answeredAt clock).controller.pending =
      gate.controller.pending.tail := by
    simp [Gate.answeredAt]
  have outstanding_eq : (gate.answeredAt clock).outstanding =
      gate.queue.length + (gate.controller.pending.length - 1) := by
    unfold outstanding
    rw [pending, List.length_tail]
    rfl
  have outstanding_le := flushed.outstanding_le
  rw [outstanding_eq] at outstanding_le
  refine ⟨⟨flushed.marked, flushed.waits, ?_, flushed.queue_nil⟩, ?_⟩
  · unfold outstanding at outstanding_le ⊢
    omega
  · by_cases empty : gate.queue = []
    · exact .inl (flushed.queue_nil empty)
    · have pending_pos := List.length_pos_iff.mpr (waits empty)
      right
      unfold outstanding at outstanding_le ⊢
      omega

/-- A faultless action that brings in nothing settles a settled gate, and an
answer takes one of the outstanding, unless the queue is empty. -/
theorem settled_perform
    {gate : Gate Binary64}
    (marked : Marked gate)
    (waits : Waits gate)
    {clock : Binary64}
    {action : Action Binary64}
    (brings : action.given = [])
    (faultless : (gate.perform clock action).fault = none) :
    Settled gate (gate.perform clock action).state ∧
      ((gate.perform clock action).state.queue = [] ∨
        (gate.perform clock action).state.outstanding + action.answers ≤
          gate.outstanding) := by
  cases action with
  | dataIn chunk => contradiction
  | probeAnswered =>
      unfold perform Gate.probeAnswered at faultless ⊢
      rw [Outcome.fault_andThen_eq_none_iff] at faultless
      rw [Outcome.state_andThen_of_faultless faultless.1]
      exact settled_probeAnswered marked waits faultless.2
  | close =>
      have settled : Settled gate gate.close.state :=
        .of_eq marked waits rfl rfl rfl
      exact ⟨settled, .inr settled.outstanding_le⟩
  | connect =>
      have settled : Settled gate gate.connect := .of_eq marked waits rfl rfl rfl
      exact ⟨settled, .inr settled.outstanding_le⟩
  | retry =>
      unfold perform at faultless ⊢
      cases earliest : Timers.earliest? gate.retry.timers.armed with
      | none => exact ⟨.refl marked waits, .inr le_rfl⟩
      | some timer =>
          rw [earliest] at faultless
          have rung : Settled gate
              { gate with retry := gate.retry.ring timer } :=
            .of_eq marked waits rfl rfl rfl
          have settled := rung.trans
            (settled_attempt rung.marked rung.waits faultless)
          exact ⟨settled, .inr settled.outstanding_le⟩

/-- Every faultless action leaves a mark and chunks that wait for answers
only. -/
theorem marked_perform
    {gate : Gate Binary64}
    (marked : Marked gate)
    (waits : Waits gate)
    {clock : Binary64}
    {action : Action Binary64}
    (faultless : (gate.perform clock action).fault = none) :
    Marked (gate.perform clock action).state ∧
      Waits (gate.perform clock action).state := by
  by_cases brings : action.given = []
  · have settled := (settled_perform marked waits brings faultless).1
    exact ⟨settled.marked, settled.waits⟩
  · cases action with
    | dataIn chunk =>
        have enqueued : Marked (gate.enqueue chunk) := marked.of_eq rfl rfl
        have settled := enqueued.flush faultless
        exact ⟨settled.marked, settled.waits⟩
    | _ => exact absurd rfl brings

/-! ## Histories -/

theorem marked_after
    {gate : Gate Binary64}
    (marked : Marked gate)
    (waits : Waits gate)
    {history : List (Binary64 × Action Binary64)}
    (faultless : gate.Faultless history) :
    Marked (gate.after history) ∧ Waits (gate.after history) := by
  induction history generalizing gate with
  | nil => exact ⟨marked, waits⟩
  | cons step rest inductionHypothesis =>
      obtain ⟨now, later⟩ := faultless_cons.mp faultless
      obtain ⟨stepMarked, stepWaits⟩ := marked_perform marked waits now
      rw [after_cons]
      exact inductionHypothesis stepMarked stepWaits later

/-- The answers in a history. -/
def answersDuring (history : List (Binary64 × Action Binary64)) : ℕ :=
  (history.map fun step => step.2.answers).sum

/-- A history that brings in nothing settles a settled gate. -/
theorem settled_after
    {gate : Gate Binary64}
    (marked : Marked gate)
    (waits : Waits gate)
    {history : List (Binary64 × Action Binary64)}
    (brings : givenDuring history = [])
    (faultless : gate.Faultless history) :
    Settled gate (gate.after history) := by
  induction history generalizing gate with
  | nil => exact .refl marked waits
  | cons step rest inductionHypothesis =>
      obtain ⟨now, later⟩ := faultless_cons.mp faultless
      obtain ⟨stepBrings, restBrings⟩ := List.append_eq_nil_iff.mp brings
      have settled := (settled_perform marked waits stepBrings now).1
      rw [after_cons]
      exact settled.trans
        (inductionHypothesis settled.marked settled.waits restBrings later)

/-- As long as chunks are queued, every answer takes one of the
outstanding. -/
theorem outstanding_after
    {gate : Gate Binary64}
    (marked : Marked gate)
    (waits : Waits gate)
    {history : List (Binary64 × Action Binary64)}
    (brings : givenDuring history = [])
    (faultless : gate.Faultless history) :
    (gate.after history).queue = [] ∨
      (gate.after history).outstanding + answersDuring history ≤
        gate.outstanding := by
  induction history generalizing gate with
  | nil => exact .inr le_rfl
  | cons step rest inductionHypothesis =>
      obtain ⟨now, later⟩ := faultless_cons.mp faultless
      obtain ⟨stepBrings, restBrings⟩ := List.append_eq_nil_iff.mp brings
      obtain ⟨settled, empty | fewer⟩ :=
        settled_perform marked waits stepBrings now
      · left
        exact (settled_after settled.marked settled.waits restBrings
          later).queue_nil empty
      · obtain empty | rest_fewer := inductionHypothesis settled.marked
          settled.waits restBrings later
        · exact .inl empty
        · right
          have answers_eq : answersDuring (step :: rest) =
              step.2.answers + answersDuring rest := List.sum_cons
          rw [after_cons, answers_eq]
          omega

/-- A fresh gate is marked. -/
theorem marked_fresh
    {controller : Controller Binary64}
    {options : Options Binary64}
    {verifyByDefault : Bool}
    {start : Binary64}
    (started : Controller.start options verifyByDefault start = .ok controller)
    (link : Link)
    (reading : Binary64 → Binary64) :
    Marked (fresh controller link reading) := by
  have windowed := Controller.windowed_of_start started
  obtain ⟨config, rfl, -, -⟩ := Controller.start_ok started
  have zero : (0 : Binary64) = finite ((0 : ℕ) : ℚ) := by simp
  exact ⟨⟨by norm_num [fresh, Arithmetic.ringSize], windowed, zero⟩, zero⟩

/-- A gate cannot lock itself up.  After any faultless history its newest probe
stands at its position; so it is never congested without a pending probe, and
chunks are queued only while a probe is pending.  From then on, if no more
chunks come in, as many answers as there are queued chunks and pending probes
empty the queue, at whatever times they arrive and whatever else happens. -/
theorem answers_empty_queue
    (options : Options Binary64)
    (verifyByDefault : Bool)
    (start : Binary64)
    (controller : Controller Binary64)
    (link : Link)
    (reading : Binary64 → Binary64)
    (history : List (Binary64 × Action Binary64))
    (started : Controller.start options verifyByDefault start = .ok controller)
    (faultless : (fresh controller link reading).Faultless history) :
    let gate := (fresh controller link reading).after history
    (gate.controller.newest.position = finite gate.position ∧
        gate.controller.position = finite gate.position) ∧
      (gate.controller.pending = [] →
        ∀ now, gate.controller.isCongested now = false) ∧
      (gate.queue ≠ [] → gate.controller.pending ≠ []) ∧
      ∀ further,
        gate.Faultless further →
        givenDuring further = [] →
        gate.queue.length + gate.controller.pending.length ≤
          answersDuring further →
        (gate.after further).queue = [] := by
  intro gate
  have freshMarked := marked_fresh started link reading
  obtain ⟨marked, waits⟩ :=
    marked_after freshMarked (fun chunks => absurd rfl chunks) faultless
  refine ⟨⟨marked.newest, marked.position⟩, marked.not_congested, waits, ?_⟩
  intro further furtherFaultless brings enough
  change gate.outstanding ≤ answersDuring further at enough
  obtain empty | fewer :
      (gate.after further).queue = [] ∨
        (gate.after further).outstanding + answersDuring further ≤
          gate.outstanding :=
    outstanding_after marked waits brings furtherFaultless
  · exact empty
  · have none_outstanding : (gate.after further).outstanding = 0 := by omega
    rw [outstanding, Nat.add_eq_zero_iff] at none_outstanding
    exact List.length_eq_zero_iff.mp none_outstanding.1

theorem answers_empty_queue_threeChunks :
    let gate := (fresh .byDefault (.reliable true) id).after threeChunks
    (gate.queue.length = 1 ∧ gate.controller.pending.length = 2) ∧
      (gate.after [(finite 20, .probeAnswered), (finite 25, .probeAnswered),
        (finite 50, .probeAnswered)]).queue = [] := by
  intro gate
  obtain ⟨faultless, queued, answered, enough⟩ :
      (fresh .byDefault (.reliable true) id).Faultless threeChunks ∧
        (gate.queue.length = 1 ∧ gate.controller.pending.length = 2) ∧
        gate.Faultless [(finite 20, .probeAnswered),
          (finite 25, .probeAnswered), (finite 50, .probeAnswered)] ∧
        gate.queue.length + gate.controller.pending.length ≤ 3 := by
    decide +kernel
  obtain ⟨-, -, -, emptied⟩ := answers_empty_queue ⟨none, none⟩ true 0
    .byDefault (.reliable true) id threeChunks Controller.start_byDefault
    faultless
  exact ⟨queued, emptied _ answered rfl enough⟩

end Gate
end Backpressure
