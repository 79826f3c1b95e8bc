import Backpressure.Proofs.Gate.Delay

/-!
# The alarm of a gate

Between actions the alarm of a gate is either unused or set once, with one timer
and one listener.  It is set exactly as long as chunks are queued, unless the
gate was closed since the last time that something came in.
-/

namespace Backpressure
namespace Alarm

variable {α : Type}

/-- An alarm without a timer and without a listener. -/
structure Idle (alarm : Alarm α Unit) : Prop where
  /-- It does not run. -/
  running : alarm.running = false
  /-- It keeps no handle. -/
  handle : alarm.handle = none
  /-- Nobody listens. -/
  listeners : alarm.listeners = []
  /-- No timer is armed. -/
  armed : alarm.timers.armed = []

/-- An alarm with one timer, which it keeps the handle of, and one listener. -/
structure SetOnce (alarm : Alarm α Unit) : Prop where
  /-- It runs. -/
  running : alarm.running = true
  /-- One listener waits. -/
  listeners : alarm.listeners = [()]
  /-- One timer is armed, and it is the one that the alarm knows of. -/
  armed : ∃ timer, alarm.timers.armed = [timer] ∧
    alarm.handle = some timer.handle

/-- The states of an alarm between actions. -/
def Ready (alarm : Alarm α Unit) : Prop :=
  Idle alarm ∨ SetOnce alarm

theorem idle_unused : Idle (unused : Alarm α Unit) :=
  ⟨rfl, rfl, rfl, rfl⟩

theorem remove_only (timers : Timers α) (timer : Timer α)
    (only : timers.armed = [timer]) :
    (timers.remove timer.handle).armed = [] := by
  simp [Timers.remove, only]

/-- Stopping an alarm leaves neither a timer nor a listener. -/
theorem Ready.reset
    {alarm : Alarm α Unit}
    (ready : Ready alarm)
    (Reason : Type) :
    Idle (alarm.reset : Outcome _ Reason _).state := by
  refine ⟨running_reset alarm, handle_reset alarm, listeners_reset alarm, ?_⟩
  unfold Alarm.reset
  obtain idle | ⟨_, _, timer, only, handle⟩ := ready
  · rw [idle.handle]
    exact idle.armed
  · rw [handle]
    exact remove_only alarm.timers timer only

/-- An alarm that has rung keeps no timer. -/
theorem idle_reset_ring
    {alarm : Alarm α Unit}
    {timer : Timer α}
    (only : alarm.timers.armed = [timer])
    (Reason : Type) :
    Idle ((alarm.ring timer).reset : Outcome _ Reason _).state :=
  ⟨rfl, rfl, rfl, remove_only alarm.timers timer only⟩

/-- Between actions an alarm has as many timers as listeners, one of each if it runs. -/
theorem Ready.counts
    {alarm : Alarm α Unit}
    (ready : Ready alarm) :
    alarm.timers.armed.length = alarm.listeners.length ∧
      alarm.listeners.length ≤ 1 ∧
      (alarm.listeners.length = 1 ↔ alarm.running = true) := by
  cases ready with
  | inl idle => simp [idle.armed, idle.listeners, idle.running]
  | inr set =>
      obtain ⟨timer, only, _⟩ := set.armed
      simp [only, set.listeners, set.running]

/-- An idle alarm is started with one timer and one listener. -/
theorem Idle.start
    [Arithmetic α]
    {alarm : Alarm α Unit}
    (idle : Idle alarm)
    (Reason : Type)
    (clock delay : α) :
    SetOnce ((alarm.listen ()).start clock delay :
      Outcome _ Reason _).state where
  running := rfl
  listeners := by
    change alarm.listeners ++ [()] = [()]
    rw [idle.listeners, List.nil_append]
  armed := by
    refine ⟨⟨alarm.timers.issued, clock + delay⟩, ?_, rfl⟩
    change (alarm.timers.arm (clock + delay)).armed = _
    rw [Timers.armed_arm, idle.armed, List.nil_append]

end Alarm

namespace Gate

open Alarm Binary64

variable {α : Type}

/-! ## The alarm follows the queue -/

/-- The alarm is set as long as chunks are queued. -/
structure Follows (gate : Gate α) : Prop where
  /-- Without chunks the alarm is idle. -/
  idle : gate.queue = [] → gate.retry.Idle
  /-- With chunks it is set. -/
  set : gate.queue ≠ [] → gate.retry.SetOnce

/-- Whether an action silences a gate that was silent before or not. -/
def Action.silences (silent : Bool) : Action α → Bool
  | .close => true
  | .dataIn _ | .probeAnswered => false
  | .connect | .retry => silent

/-- Whether a gate was closed in a history and nothing came in since. -/
def silenced (history : List (α × Action α)) : Bool :=
  history.foldl (fun silent step => step.2.silences silent) false

/-- The alarm follows the queue, or it is idle because the gate is silent. -/
def Watches (silent : Bool) (gate : Gate α) : Prop :=
  if silent then gate.retry.Idle else Follows gate

theorem Follows.ready
    {gate : Gate α}
    (follows : Follows gate) :
    gate.retry.Ready := by
  by_cases empty : gate.queue = []
  · exact .inl (follows.idle empty)
  · exact .inr (follows.set empty)

theorem Watches.ready
    {silent : Bool}
    {gate : Gate α}
    (watches : Watches silent gate) :
    gate.retry.Ready := by
  cases silent with
  | false => exact Follows.ready watches
  | true => exact .inl watches

theorem Watches.running_iff
    {silent : Bool}
    {gate : Gate α}
    (watches : Watches silent gate) :
    gate.retry.running = true ↔ gate.queue ≠ [] ∧ silent = false := by
  cases silent with
  | true => simp [Alarm.Idle.running watches]
  | false =>
      by_cases empty : gate.queue = []
      · simp [(Follows.idle watches empty).running, empty]
      · simp [(Follows.set watches empty).running, empty]

/-! ## Settling -/

variable [Arithmetic α]

theorem idle_settle
    {gate : Gate α}
    (ready : gate.retry.Ready)
    (empty : gate.queue = [])
    (clock now : α) :
    (gate.settle clock now).state.retry.Idle := by
  unfold settle
  rw [empty, List.isEmpty_nil, if_pos rfl]
  split
  · exact ready.reset (Fault α)
  · next stopped =>
      cases ready with
      | inl idle => exact idle
      | inr set => exact absurd set.running stopped

theorem setOnce_settle
    {gate : Gate α}
    (ready : gate.retry.Ready)
    (chunks : gate.queue ≠ [])
    (clock now : α) :
    (gate.settle clock now).state.retry.SetOnce := by
  have queued : ¬gate.queue.isEmpty = true := by
    rwa [List.isEmpty_iff]
  unfold settle scheduleRetry
  rw [if_neg queued]
  cases ready with
  | inl idle =>
      have stopped : ¬gate.retry.running = true := by
        rw [idle.running]
        exact Bool.false_ne_true
      rw [if_neg stopped]
      exact idle.start (Fault α) clock _
  | inr set =>
      rw [if_pos set.running]
      exact set

/-- Settling makes the alarm follow the queue. -/
theorem follows_settle
    {gate : Gate α}
    (ready : gate.retry.Ready)
    (clock now : α) :
    Follows (gate.settle clock now).state := by
  have queue_eq : (gate.settle clock now).state.queue = gate.queue := by
    rw [state_settle]
  constructor
  · intro empty
    exact idle_settle ready (queue_eq ▸ empty) clock now
  · intro chunks
    exact setOnce_settle ready (queue_eq ▸ chunks) clock now

/-- A hand-over leaves the alarm alone, wherever it ends. -/
theorem retry_relieved (now : α) (gate : Gate α) :
    (gate.relieved now).retry = gate.retry := by
  refine state_handOver
    (motive := fun current : Gate α => current.retry = gate.retry) ?_ rfl rfl
  intro current chunk rest _ same
  unfold pass
  refine Outcome.state_andThen
    (motive := fun current : Gate α => current.retry = gate.retry) ?_ id
  rw [state_forward]
  exact same

/-- After a faultless flush the alarm follows the queue. -/
theorem follows_flush
    {gate : Gate α}
    (ready : gate.retry.Ready)
    {clock : α}
    (faultless : (gate.flush clock).fault = none) :
    Follows (gate.flush clock).state := by
  obtain ⟨_, ⟨_, state_eq⟩ | ⟨_, state_eq⟩⟩ := flush_of_faultless rfl faultless
  all_goals
    have relieved : (gate.relieved (gate.reading clock)).retry.Ready := by
      rwa [retry_relieved]
    rw [state_eq]
  · exact follows_settle relieved clock _
  · refine follows_settle ?_ clock _
    rw [state_probe]
    exact relieved

/-! ## Actions -/

/-- The gate when its alarm has rung and is stopped for an attempt. -/
def rung (timer : Timer α) (gate : Gate α) : Gate α :=
  { gate with
    retry :=
      ((gate.retry.ring timer).reset : Outcome _ (Fault α) _).state }

/-- The only listener of an alarm that has rung stops it and flushes. -/
theorem expire_eq_of_setOnce
    {gate : Gate α}
    (set : gate.retry.SetOnce)
    (timer : Timer α)
    (clock : α) :
    gate.expire timer clock =
      ({ gate with retry := gate.retry.ring timer } : Gate α).resetRetry.andThen
        (flush clock) := by
  unfold expire
  rw [set.listeners]
  change Outcome.andThen (Outcome.andThen _ _) Outcome.done = _
  rw [Outcome.andThen_nothing]

/-- So it makes one attempt. -/
theorem expire_of_setOnce
    {gate : Gate α}
    (set : gate.retry.SetOnce)
    (timer : Timer α)
    (clock : α) :
    (gate.expire timer clock).state = ((gate.rung timer).flush clock).state ∧
      (gate.expire timer clock).fault =
        ((gate.rung timer).flush clock).fault := by
  rw [expire_eq_of_setOnce set, Outcome.andThen_of_faultless (fault_resetRetry _)]
  exact ⟨rfl, rfl⟩

/-- The only timer of an alarm that has rung leads to one attempt. -/
theorem follows_expire
    {gate : Gate α}
    (set : gate.retry.SetOnce)
    {timer : Timer α}
    (only : gate.retry.timers.armed = [timer])
    {clock : α}
    (faultless : (gate.expire timer clock).fault = none) :
    Follows (gate.expire timer clock).state := by
  obtain ⟨state_eq, fault_eq⟩ := expire_of_setOnce set timer clock
  rw [fault_eq] at faultless
  rw [state_eq]
  exact follows_flush (.inl (idle_reset_ring only (Fault α))) faultless

theorem watches_perform
    {silent : Bool}
    {gate : Gate α}
    (watches : Watches silent gate)
    {clock : α}
    {action : Action α}
    (faultless : (gate.perform clock action).fault = none) :
    Watches (action.silences silent) (gate.perform clock action).state := by
  cases action with
  | dataIn chunk =>
      have enqueued : (gate.enqueue chunk).retry.Ready := watches.ready
      exact follows_flush enqueued faultless
  | probeAnswered =>
      unfold perform Gate.probeAnswered at faultless ⊢
      rw [Outcome.fault_andThen_eq_none_iff] at faultless
      rw [Outcome.state_andThen_of_faultless faultless.1]
      refine follows_flush ?_ faultless.2
      exact watches.ready
  | close => exact watches.ready.reset (Fault α)
  | connect =>
      cases silent with
      | false => exact ⟨watches.idle, watches.set⟩
      | true => exact watches
  | retry =>
      unfold perform at faultless ⊢
      cases watches.ready with
      | inl idle =>
          rw [idle.armed]
          exact watches
      | inr set =>
          obtain ⟨timer, only, _⟩ := set.armed
          rw [only] at faultless ⊢
          cases silent with
          | false => exact follows_expire set only faultless
          | true =>
              have running := set.running
              rw [watches.running] at running
              contradiction

theorem watches_after
    {silent : Bool}
    {gate : Gate α}
    (watches : Watches silent gate)
    {history : List (α × Action α)}
    (faultless : gate.Faultless history) :
    Watches (history.foldl (fun silent step => step.2.silences silent) silent)
      (gate.after history) := by
  induction history generalizing gate silent with
  | nil => exact watches
  | cons step rest inductionHypothesis =>
      obtain ⟨now, later⟩ := faultless_cons.mp faultless
      exact inductionHypothesis (watches_perform watches now) later

/-- No attempt is forgotten, and no timer is left over.  After any history of a gate
whose link takes everything, at any finite clock readings, the alarm has as many timers
as listeners, one of each if it runs and none otherwise; it runs exactly as long as
chunks are queued, unless the gate was closed and nothing came in since; and no action
fails.  If moreover no two readings, that of the start included, are more than 2 ^ 800
milliseconds apart, then every delay that was set is a whole number of milliseconds, at
least one. -/
theorem alarm_follows_queue
    (options : Options Binary64)
    (verifyByDefault : Bool)
    (start : Binary64)
    (controller : Controller Binary64)
    (connected : Bool)
    (reading : Binary64 → Binary64)
    (history : List (Binary64 × Action Binary64))
    (started : Controller.start options verifyByDefault start = .ok controller)
    (finiteReadings : ∀ step ∈ history, (reading step.1).IsFinite) :
    let begun := fresh controller (.reliable connected) reading
    let gate := begun.after history
    (gate.retry.timers.armed.length = gate.retry.listeners.length ∧
        gate.retry.listeners.length ≤ 1 ∧
        (gate.retry.listeners.length = 1 ↔ gate.retry.running = true)) ∧
      (gate.retry.running = true ↔
        gate.queue ≠ [] ∧ silenced history = false) ∧
      begun.Faultless history ∧
      (Spaced 800 (readingsDuring start reading history) →
        ∀ outcome ∈ begun.outcomes history,
          ∀ delay ∈ armedDelays outcome.events, Delay delay) := by
  intro begun gate
  have faultless : begun.Faultless history := by
    obtain ⟨config, rfl, _⟩ := Controller.start_ok started
    have healthy : Healthy Controller.Ordered reading begun :=
      ⟨⟨Controller.ordered_fresh config start, rfl⟩, rfl, rfl⟩
    have safe := safe_outcomes healthy
      fun step member => behaves_ordered (finiteReadings step member)
    exact fun outcome member => (safe outcome member).faultless
  have watches : Watches (silenced history) gate := by
    refine watches_after ?_ faultless
    exact ⟨fun _ => Alarm.idle_unused, fun chunks => absurd rfl chunks⟩
  refine ⟨watches.ready.counts, watches.running_iff, faultless, ?_⟩
  intro spaced outcome member
  have sound : controller.Sound (readingsDuring start reading history) :=
    Controller.sound_of_start List.mem_cons_self started
  have healthy : Healthy (Controller.Sound _) reading begun :=
    ⟨⟨sound, rfl⟩, rfl, rfl⟩
  have safe := safe_outcomes healthy fun step member =>
    behaves_sound spaced (List.mem_cons_of_mem _ (List.mem_map_of_mem member))
  exact (safe outcome member).delays

/-- A gate with a receiver, before anything has come in. -/
def attended : Gate Binary64 :=
  fresh .byDefault (.reliable true) id

theorem alarm_follows_queue_threeChunks :
    Controller.start ⟨none, none⟩ true 0 = .ok .byDefault ∧
      (∀ step ∈ (threeChunks : List (Binary64 × Action Binary64)),
        step.1.IsFinite) ∧
      Spaced 800 (readingsDuring 0 id threeChunks) ∧
      (attended.after threeChunks).retry.running = true ∧
      (attended.after threeChunks).retry.timers.armed.length = 1 ∧
      attended.Faultless threeChunks ∧
      ∃ outcome ∈ attended.outcomes threeChunks,
        ∃ delay ∈ armedDelays outcome.events, delay = finite 100 ∧ Delay delay := by
  have finiteReadings : ∀ step ∈ (threeChunks : List (Binary64 × Action Binary64)),
      step.1.IsFinite := by
    decide +kernel
  have spaced : Spaced 800 (readingsDuring 0 id threeChunks) := by
    have close : ∀ earlier ∈ ([0, 0, 0, 0] : List Binary64),
        ∀ later ∈ ([0, 0, 0, 0] : List Binary64),
          later - earlier ≤ finite (2 ^ (800 : ℤ)) := by
      decide +kernel
    exact close
  have queued : (attended.after threeChunks).queue.length = 1 := by
    decide +kernel
  have planned : ∃ outcome ∈ attended.outcomes threeChunks,
      ∃ delay ∈ armedDelays outcome.events, delay = finite 100 := by
    decide +kernel
  obtain ⟨⟨timers, _, listens⟩, runs, faultless, whole⟩ :=
    alarm_follows_queue ⟨none, none⟩ true 0 .byDefault true id threeChunks
      Controller.start_byDefault finiteReadings
  have chunks : (attended.after threeChunks).queue ≠ [] := by
    intro empty
    rw [empty] at queued
    contradiction
  have running : (attended.after threeChunks).retry.running = true :=
    runs.mpr ⟨chunks, rfl⟩
  obtain ⟨outcome, member, delay, armed, delay_eq⟩ := planned
  exact ⟨Controller.start_byDefault, finiteReadings, spaced, running,
    timers.trans (listens.mpr running), faultless, outcome, member, delay, armed,
    delay_eq, whole spaced outcome member delay armed⟩

/-- A probe that is answered after an absurdly long time. -/
def farApart : List (Binary64 × Action Binary64) :=
  [(0, .dataIn ⟨Array.replicate 100 0⟩),
    (finite (2 ^ 1023), .probeAnswered),
    (finite (2 ^ 1023), .dataIn ⟨Array.replicate 20000 0⟩),
    (finite (2 ^ 1023), .dataIn ⟨Array.replicate 10000 0⟩)]

/-- Clock readings that are finite but absurdly far apart can lead to a delay
without end. -/
theorem endless_delay_farApart :
    ¬∀ history : List (Binary64 × Action Binary64),
      (∀ step ∈ history, ∃ milliseconds : ℚ, step.1 = finite milliseconds) →
        ∀ outcome ∈ (fresh .byDefault (.reliable true) id).outcomes history,
          ∀ delay ∈ armedDelays outcome.events, Delay delay := by
  intro whole
  have finiteReadings : ∀ step ∈ farApart,
      ∃ milliseconds : ℚ, step.1 = finite milliseconds := by
    simp [farApart]
  have endless : ∃ outcome ∈
      (fresh .byDefault (.reliable true) id).outcomes farApart,
        ∃ delay ∈ armedDelays outcome.events, delay = infinity false := by
    decide +kernel
  obtain ⟨outcome, member, _, armed, rfl⟩ := endless
  obtain ⟨milliseconds, delay_eq, _⟩ :=
    whole farApart finiteReadings outcome member _ armed
  contradiction

end Gate
end Backpressure
