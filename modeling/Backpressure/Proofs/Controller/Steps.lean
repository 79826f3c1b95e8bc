import Backpressure.Controller.Action

/-!
# The steps of a controller

What each report changes and what it leaves alone.  Only an answer can fail, and
only reports of progress and answers change the window: an idle period takes it
down to the initial one at most, and an adjustment keeps it within its bounds.
-/

namespace Backpressure
namespace Controller

variable {α : Type} [Arithmetic α]

/-- Options lead to a controller with a whole window within bounds. -/
theorem start_ok
    {options : Options α}
    {verifyByDefault : Bool}
    {now : α}
    {controller : Controller α}
    (started : start options verifyByDefault now = .ok controller) :
    ∃ config : Config α,
      controller = fresh config now ∧
        Window.Accepted config.initialWindow ∧
        config.counting = .wrapping := by
  simp only [start] at started
  split at started
  · next accepted =>
      injection started with controller_eq
      exact ⟨_, controller_eq.symm, accepted, rfl⟩
  · contradiction

/-! ## Reports of progress -/

/-- The bytes that a total adds to the position. -/
def added (controller : Controller α) (total : α) : α :=
  controller.distance (controller.config.counting.position total)
    controller.position

/-- The controller after the idle check that comes first in a report. -/
def checked (controller : Controller α) (now total : α) : Controller α :=
  ((controller.noteActivity now (controller.added total)).checkIdle now).state

@[simp] theorem fault_checkIdle (controller : Controller α) (now : α) :
    (controller.checkIdle now).fault = none := by
  simp only [checkIdle]
  split <;> rfl

/-- A report of progress cannot fail. -/
@[simp] theorem fault_recordProgress
    (controller : Controller α)
    (now total : α) :
    (controller.recordProgress now total).fault = none := by
  simp [recordProgress]

/-- What a report of progress sets after its idle check. -/
def reported (controller : Controller α) (now position added : α) :
    Controller α :=
  { controller with
    extra := controller.surplusAfter now added
    position
    updatedAt := now }

/-- A report of progress is an idle check and what it sets then. -/
theorem recordProgress_eq
    (controller : Controller α)
    (now total : α) :
    controller.recordProgress now total =
      ((controller.noteActivity now (controller.added total)).checkIdle
        now).andThen fun checked =>
          .done (checked.reported now
            (controller.config.counting.position total)
            (controller.added total)) := rfl

theorem state_recordProgress
    (controller : Controller α)
    (now total : α) :
    (controller.recordProgress now total).state =
      { controller.checked now total with
        extra := (controller.checked now total).surplusAfter now
          (controller.added total)
        position := controller.config.counting.position total
        updatedAt := now } := by
  rw [recordProgress_eq, Outcome.andThen_of_faultless (fault_checkIdle _ _)]
  rfl

/-- Noting activity changes at most the time of the last activity. -/
theorem noteActivity_eq
    (controller : Controller α)
    (now added : α) :
    controller.noteActivity now added =
      { controller with
        busyAt := (controller.noteActivity now added).busyAt } := by
  unfold noteActivity
  split <;> rfl

/-- The idle check either leaves the controller as it is or resets it. -/
theorem checked_cases
    (controller : Controller α)
    (now total : α) :
    let noted := controller.noteActivity now (controller.added total)
    (noted.idleTimeout < Time.elapsed noted.busyAt now ∧
        controller.checked now total =
          { noted with
            window := Arithmetic.smaller controller.config.initialWindow
              controller.window
            base := none
            samples := 0
            adjustedAt := now
            lowest := none
            lowestCongested := none }) ∨
      (¬noted.idleTimeout < Time.elapsed noted.busyAt now ∧
        controller.checked now total = noted) := by
  intro noted
  have noted_eq := controller.noteActivity_eq now (controller.added total)
  unfold checked checkIdle
  by_cases idle : noted.idleTimeout < Time.elapsed noted.busyAt now
  · refine .inl ⟨idle, ?_⟩
    simp only [noted] at idle ⊢
    simp only [if_pos idle, resetAfterIdle, Outcome.state_reporting]
    rw [noted_eq]
  · refine .inr ⟨idle, ?_⟩
    simp only [noted] at idle ⊢
    simp only [if_neg idle, Outcome.state_done]

/-- An idle check leaves all that is not learned of the path. -/
theorem checked_eq
    (controller : Controller α)
    (now total : α) :
    controller.checked now total =
      { controller with
        window := (controller.checked now total).window
        base := (controller.checked now total).base
        samples := (controller.checked now total).samples
        lowest := (controller.checked now total).lowest
        lowestCongested := (controller.checked now total).lowestCongested
        busyAt := (controller.checked now total).busyAt
        adjustedAt := (controller.checked now total).adjustedAt } := by
  have noted_eq := controller.noteActivity_eq now (controller.added total)
  obtain ⟨_, reset⟩ | ⟨_, kept⟩ := controller.checked_cases now total
  · rw [reset, noted_eq]
  · rw [kept, noted_eq]

@[simp] theorem extra_checked
    (controller : Controller α)
    (now total : α) :
    (controller.checked now total).extra = controller.extra := by
  rw [checked_eq]

@[simp] theorem updatedAt_checked
    (controller : Controller α)
    (now total : α) :
    (controller.checked now total).updatedAt = controller.updatedAt := by
  rw [checked_eq]

@[simp] theorem config_recordProgress
    (controller : Controller α)
    (now total : α) :
    (controller.recordProgress now total).state.config = controller.config := by
  rw [state_recordProgress, checked_eq]

@[simp] theorem position_recordProgress
    (controller : Controller α)
    (now total : α) :
    (controller.recordProgress now total).state.position =
      controller.config.counting.position total := by
  rw [state_recordProgress]

@[simp] theorem updatedAt_recordProgress
    (controller : Controller α)
    (now total : α) :
    (controller.recordProgress now total).state.updatedAt = now := by
  rw [state_recordProgress]

@[simp] theorem pending_recordProgress
    (controller : Controller α)
    (now total : α) :
    (controller.recordProgress now total).state.pending =
      controller.pending := by
  rw [state_recordProgress, checked_eq]

@[simp] theorem answered_recordProgress
    (controller : Controller α)
    (now total : α) :
    (controller.recordProgress now total).state.answered =
      controller.answered := by
  rw [state_recordProgress, checked_eq]

@[simp] theorem answeredAt_recordProgress
    (controller : Controller α)
    (now total : α) :
    (controller.recordProgress now total).state.answeredAt =
      controller.answeredAt := by
  rw [state_recordProgress, checked_eq]

/-- A report of progress keeps the window, or takes it down to the initial
one. -/
theorem window_recordProgress
    (controller : Controller α)
    (now total : α) :
    (controller.recordProgress now total).state.window = controller.window ∨
      (controller.recordProgress now total).state.window =
        Arithmetic.smaller controller.config.initialWindow
          controller.window := by
  have noted_eq := controller.noteActivity_eq now (controller.added total)
  rw [state_recordProgress]
  obtain ⟨_, reset⟩ | ⟨_, kept⟩ := controller.checked_cases now total
  · exact .inr (congrArg Controller.window reset)
  · left
    change (controller.checked now total).window = _
    rw [kept, noted_eq]

/-- A report of progress either finds the controller idle, reports this and
resets it, or it reports nothing. -/
theorem recordProgress_cases
    (controller : Controller α)
    (now total : α) :
    let noted := controller.noteActivity now (controller.added total)
    let position := controller.config.counting.position total
    let window := Arithmetic.smaller controller.config.initialWindow
      controller.window
    (controller.idleTimeout < Time.elapsed noted.busyAt now ∧
        controller.recordProgress now total =
          .reporting
            [.idleReset (Time.elapsed noted.busyAt now) controller.window window]
            { noted with
              window
              base := none
              samples := 0
              adjustedAt := now
              lowest := none
              lowestCongested := none
              position
              updatedAt := now }) ∨
      (¬controller.idleTimeout < Time.elapsed noted.busyAt now ∧
        controller.recordProgress now total =
          .done (noted.reported now position (controller.added total))) := by
  intro noted position window
  have noted_eq := controller.noteActivity_eq now (controller.added total)
  have timeout_eq : noted.idleTimeout = controller.idleTimeout := by
    simp only [noted]
    rw [noted_eq]
    rfl
  rw [← timeout_eq, recordProgress_eq]
  by_cases idle : noted.idleTimeout < Time.elapsed noted.busyAt now
  · refine .inl ⟨idle, ?_⟩
    simp only [noted, checkIdle] at idle ⊢
    rw [if_pos idle, noted_eq]
    rfl
  · refine .inr ⟨idle, ?_⟩
    simp only [noted, checkIdle] at idle ⊢
    rw [if_neg idle]
    rfl

/-! ## Probes -/

/-- A report of a probe cannot fail. -/
@[simp] theorem fault_probeSent (controller : Controller α) (now : α) :
    (controller.probeSent now).fault = none := rfl

/-- A report of a probe does nothing but remember it. -/
@[simp] theorem state_probeSent (controller : Controller α) (now : α) :
    (controller.probeSent now).state =
      { controller with
        pending := controller.pending ++ [controller.probeNow now] } := rfl

/-! ## Answers -/

/-- The round trip that the answer to a probe measures. -/
def roundTrip (probe : Probe α) (now : α) : α :=
  Arithmetic.larger 1 (Time.elapsed probe.sentAt now)

/-- The controller after the answer to its oldest probe, before the round trip
counts as a sample. -/
def measured (controller : Controller α) (now : α) (probe : Probe α)
    (rest : List (Probe α)) : Controller α :=
  { controller with
    base := some (lowered controller.base (roundTrip probe now))
    answered := probe
    answeredAt := now
    pending := rest }

/-- An answer without a pending probe does nothing. -/
theorem probeAnswered_of_stray
    {controller : Controller α}
    (pending : controller.pending = [])
    (now : α) :
    controller.probeAnswered now = .reporting [.strayAnswer] controller := by
  unfold probeAnswered
  rw [pending]

/-- An answer measures the round trip of the oldest probe.  It is a sample
unless the probe is older than the window. -/
theorem probeAnswered_of_pending
    {controller : Controller α}
    {probe : Probe α}
    {rest : List (Probe α)}
    (pending : controller.pending = probe :: rest)
    (now : α) :
    controller.probeAnswered now =
      if probe.sentAt < controller.adjustedAt then
        .done (controller.measured now probe rest)
      else
        (controller.measured now probe rest).sample now
          (lowered controller.base (roundTrip probe now))
          (roundTrip probe now) probe := by
  unfold probeAnswered
  rw [pending]
  rfl

/-- An adjustment of the window begins a new measurement period, and it leads
to a window within bounds. -/
theorem state_adjustWindow
    (controller : Controller α)
    (now base lowest : α) :
    (controller.adjustWindow now base lowest).state = controller ∨
      ∃ measurement : Measurement α,
        (controller.adjustWindow now base lowest).state =
          { controller with
            window := Window.next measurement controller.window
            samples := 0
            adjustedAt := now
            lowest := none
            lowestCongested := none } := by
  simp only [adjustWindow, adjust]
  split
  · exact .inl rfl
  · split
    · exact .inl rfl
    · exact .inr ⟨_, rfl⟩

/-- A sample changes only what is learned of the path. -/
theorem state_sample
    (controller : Controller α)
    (now base roundTrip : α)
    (probe : Probe α) :
    ∃ window samples lowest lowestCongested adjustedAt,
      (controller.sample now base roundTrip probe).state =
          { controller with
            window, samples, lowest, lowestCongested, adjustedAt } ∧
        (window = controller.window ∨
          ∃ measurement : Measurement α,
            window = Window.next measurement controller.window) := by
  unfold sample
  generalize controller.compensated base roundTrip probe.extra = compensated
  obtain kept | ⟨measurement, adjusted⟩ := state_adjustWindow
    (controller.addSample compensated probe.congested) now base
    (lowered controller.lowest compensated)
  · exact ⟨_, _, _, _, _, kept, .inl rfl⟩
  · exact ⟨_, _, _, _, _, adjusted, .inr ⟨measurement, rfl⟩⟩

/-- An answer takes the oldest probe from the pending ones and leaves all that
is known of the bytes handed over. -/
theorem state_probeAnswered
    (controller : Controller α)
    (now : α) :
    ∃ base window samples lowest lowestCongested adjustedAt answeredAt,
      (controller.probeAnswered now).state =
          { controller with
            base, window, samples, lowest, lowestCongested, adjustedAt,
            answeredAt
            answered := controller.pending.head?.getD controller.answered
            pending := controller.pending.tail } ∧
        (window = controller.window ∨
          ∃ measurement : Measurement α,
            window = Window.next measurement controller.window) := by
  cases pending : controller.pending with
  | nil =>
      rw [probeAnswered_of_stray pending]
      refine ⟨controller.base, controller.window, controller.samples,
        controller.lowest, controller.lowestCongested, controller.adjustedAt,
        controller.answeredAt, ?_, .inl rfl⟩
      cases controller
      cases pending
      rfl
  | cons probe rest =>
      rw [probeAnswered_of_pending pending]
      split
      · exact ⟨_, _, _, _, _, _, _, rfl, .inl rfl⟩
      · obtain ⟨window, _, _, _, _, state_eq, window_eq⟩ :=
          state_sample (controller.measured now probe rest) now _ _ probe
        exact ⟨_, _, _, _, _, _, _, state_eq, window_eq⟩

section Answers

variable (controller : Controller α) (now : α)

@[simp] theorem config_probeAnswered :
    (controller.probeAnswered now).state.config = controller.config := by
  obtain ⟨_, _, _, _, _, _, _, state_eq, _⟩ :=
    controller.state_probeAnswered now
  rw [state_eq]

@[simp] theorem position_probeAnswered :
    (controller.probeAnswered now).state.position = controller.position := by
  obtain ⟨_, _, _, _, _, _, _, state_eq, _⟩ :=
    controller.state_probeAnswered now
  rw [state_eq]

@[simp] theorem extra_probeAnswered :
    (controller.probeAnswered now).state.extra = controller.extra := by
  obtain ⟨_, _, _, _, _, _, _, state_eq, _⟩ :=
    controller.state_probeAnswered now
  rw [state_eq]

@[simp] theorem busyAt_probeAnswered :
    (controller.probeAnswered now).state.busyAt = controller.busyAt := by
  obtain ⟨_, _, _, _, _, _, _, state_eq, _⟩ :=
    controller.state_probeAnswered now
  rw [state_eq]

@[simp] theorem pending_probeAnswered :
    (controller.probeAnswered now).state.pending = controller.pending.tail := by
  obtain ⟨_, _, _, _, _, _, _, state_eq, _⟩ :=
    controller.state_probeAnswered now
  rw [state_eq]

@[simp] theorem answered_probeAnswered :
    (controller.probeAnswered now).state.answered =
      controller.pending.head?.getD controller.answered := by
  obtain ⟨_, _, _, _, _, _, _, state_eq, _⟩ :=
    controller.state_probeAnswered now
  rw [state_eq]

/-- An answer sets the time of the last one, unless no probe was waiting. -/
theorem answeredAt_probeAnswered :
    (controller.probeAnswered now).state.answeredAt = controller.answeredAt ∨
      (controller.probeAnswered now).state.answeredAt = now := by
  cases pending : controller.pending with
  | nil =>
      rw [probeAnswered_of_stray pending]
      exact .inl rfl
  | cons probe rest =>
      right
      rw [probeAnswered_of_pending pending]
      split
      · rfl
      · obtain ⟨_, _, _, _, _, state_eq, _⟩ :=
          state_sample (controller.measured now probe rest) now _ _ probe
        rw [state_eq]
        rfl

/-- An answer keeps the window, or adjusts it. -/
theorem window_probeAnswered :
    (controller.probeAnswered now).state.window = controller.window ∨
      ∃ measurement : Measurement α,
        (controller.probeAnswered now).state.window =
          Window.next measurement controller.window := by
  obtain ⟨_, _, _, _, _, _, _, state_eq, window_eq⟩ :=
    controller.state_probeAnswered now
  rw [state_eq]
  exact window_eq

end Answers

/-- Samples lead to no other report than that of an adjustment. -/
theorem mem_events_adjustWindow
    {controller : Controller α}
    {now base lowest : α}
    {notice : Notice α}
    (member : notice ∈ (controller.adjustWindow now base lowest).events) :
    ∃ adjustment previous window measurement,
      notice = .adjusted adjustment previous window measurement := by
  simp only [adjustWindow, adjust] at member
  split at member
  · contradiction
  · split at member
    · contradiction
    · exact ⟨_, _, _, _, List.mem_singleton.mp member⟩

/-- An answer reports that no probe was waiting for it, or an adjustment. -/
theorem mem_events_probeAnswered
    {controller : Controller α}
    {now : α}
    {notice : Notice α}
    (member : notice ∈ (controller.probeAnswered now).events) :
    notice = .strayAnswer ∨ ∃ adjustment previous window measurement,
      notice = .adjusted adjustment previous window measurement := by
  cases pending : controller.pending with
  | nil =>
      rw [probeAnswered_of_stray pending] at member
      exact .inl (List.mem_singleton.mp member)
  | cons probe rest =>
      rw [probeAnswered_of_pending pending] at member
      split at member
      · contradiction
      · exact .inr (mem_events_adjustWindow member)

/-- A broken order is that of one of the two minima against the wire latency. -/
theorem violation_of_some
    {controller : Controller α}
    {base lowest : α}
    {reason : Fault α}
    (broken : controller.violation base lowest = some reason) :
    ∃ lowest base, reason = .lowestBelowBase lowest base ∨
      reason = .congestedBelowBase lowest base := by
  unfold violation at broken
  split at broken
  · split at broken
    · contradiction
    · split at broken
      · contradiction
      · exact ⟨_, _, .inr (Option.some.inj broken).symm⟩
  · exact ⟨_, _, .inl (Option.some.inj broken).symm⟩

/-- Samples fail only at their order. -/
theorem adjustWindow_of_faulty
    {controller : Controller α}
    {now base lowest : α}
    {reason : Fault α}
    (faulty : (controller.adjustWindow now base lowest).fault = some reason) :
    ∃ lowest base, reason = .lowestBelowBase lowest base ∨
      reason = .congestedBelowBase lowest base := by
  unfold adjustWindow at faulty
  split at faulty
  · contradiction
  · split at faulty
    · cases broken : controller.violation base lowest with
      | none =>
          rw [broken] at faulty
          contradiction
      | some cause =>
          rw [broken] at faulty
          rw [← Option.some.inj faulty]
          exact violation_of_some broken
    · contradiction

/-- An answer fails only at the order of the measured round trips. -/
theorem probeAnswered_of_faulty
    {controller : Controller α}
    {now : α}
    {reason : Fault α}
    (faulty : (controller.probeAnswered now).fault = some reason) :
    ∃ lowest base, reason = .lowestBelowBase lowest base ∨
      reason = .congestedBelowBase lowest base := by
  cases pending : controller.pending with
  | nil =>
      rw [probeAnswered_of_stray pending] at faulty
      contradiction
  | cons probe rest =>
      rw [probeAnswered_of_pending pending] at faulty
      split at faulty
      · contradiction
      · exact adjustWindow_of_faulty faulty

/-! ## All reports -/

/-- The total that a report is of. -/
def Action.total {α : Type} : Action α → Option α
  | .recordProgress total => some total
  | .probeSent => none
  | .probeAnswered => none

/-- The totals that a history reports, at readings of any kind. -/
def totals {ρ τ : Type} (history : List (ρ × Action τ)) : List τ :=
  history.filterMap fun step => step.2.total

/-- What is fixed for the life of a controller never changes. -/
@[simp] theorem config_perform
    (controller : Controller α)
    (now : α)
    (action : Action α) :
    (controller.perform now action).state.config = controller.config := by
  cases action with
  | recordProgress total => exact config_recordProgress _ _ _
  | probeSent => rfl
  | probeAnswered => exact config_probeAnswered _ _

@[simp] theorem config_after
    (controller : Controller α)
    (history : List (α × Action α)) :
    (controller.after history).config = controller.config := by
  induction history generalizing controller with
  | nil => rfl
  | cons step rest inductionHypothesis =>
      rw [after_cons, inductionHypothesis, config_perform]

theorem answeredAt_perform
    (controller : Controller α)
    (now : α)
    (action : Action α) :
    (controller.perform now action).state.answeredAt = controller.answeredAt ∨
      (controller.perform now action).state.answeredAt = now := by
  cases action with
  | recordProgress total => exact .inl (answeredAt_recordProgress _ _ _)
  | probeSent => exact .inl rfl
  | probeAnswered => exact answeredAt_probeAnswered _ _

/-- The last answer arrived at one of the readings of a history, if not before
it. -/
theorem answeredAt_after_mem
    (controller : Controller α)
    (history : List (α × Action α)) :
    (controller.after history).answeredAt ∈
      controller.answeredAt :: history.map Prod.fst := by
  induction history generalizing controller with
  | nil => exact List.mem_singleton.mpr rfl
  | cons step rest inductionHypothesis =>
      obtain ⟨now, action⟩ := step
      have later := inductionHypothesis (controller.perform now action).state
      rw [after_cons, List.map_cons]
      obtain first | rest_mem := List.mem_cons.mp later
      · rw [first]
        obtain kept | moved := controller.answeredAt_perform now action
        · rw [kept]
          exact List.mem_cons_self
        · rw [moved]
          exact List.mem_cons_of_mem _ List.mem_cons_self
      · exact List.mem_cons_of_mem _ (List.mem_cons_of_mem _ rest_mem)

end Controller
end Backpressure
