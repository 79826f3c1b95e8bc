import Mathlib
import Backpressure.Alarm.Reaction
import Backpressure.Binary64.Arithmetic

/-!
# When an alarm runs

An alarm runs if the last thing that happened to its timers is that one was armed, and that
timer is then armed still.  An alarm that is started while it runs forgets its older timer: no
reset cancels it, and it may expire after one.  Otherwise the alarm runs exactly as long as a
timer is armed, and a reset leaves none.
-/

namespace Backpressure

namespace Alarm

variable {α Listener Reason : Type}

/-- An alarm runs as long as it keeps a handle.  That of an armed timer it is, and timers to
come have other handles. -/
structure Knowing (alarm : Alarm α Listener) : Prop where
  /-- It runs as long as it keeps a handle. -/
  running : alarm.running = alarm.handle.isSome
  /-- The handle is that of an armed timer. -/
  armed : ∀ handle ∈ alarm.handle, ∃ timer ∈ alarm.timers.armed, timer.handle = handle
  /-- Armed timers have handles that were issued. -/
  issued : ∀ timer ∈ alarm.timers.armed, timer.handle < alarm.timers.issued

/-- An alarm that has forgotten none of its timers. -/
def Mindful (alarm : Alarm α Listener) : Prop :=
  alarm.timers.armed.map Timer.handle = alarm.handle.toList

theorem Mindful.armed_eq_nil_iff
    {alarm : Alarm α Listener}
    (mindful : alarm.Mindful) :
    alarm.timers.armed = [] ↔ alarm.handle = none := by
  rw [← List.map_eq_nil_iff, mindful, Option.toList_eq_nil_iff]

theorem Mindful.length_armed_le
    {alarm : Alarm α Listener}
    (mindful : alarm.Mindful) :
    alarm.timers.armed.length ≤ 1 := by
  calc alarm.timers.armed.length = (alarm.timers.armed.map Timer.handle).length :=
        (List.length_map _).symm
    _ = alarm.handle.toList.length := congrArg List.length mindful
    _ ≤ 1 := Option.length_toList_le

/-- The timer that is armed is the one it keeps the handle of. -/
theorem Mindful.handle_eq
    {alarm : Alarm α Listener}
    (mindful : alarm.Mindful)
    {timer : Timer α}
    (armed : timer ∈ alarm.timers.armed) :
    alarm.handle = some timer.handle := by
  have member : timer.handle ∈ alarm.timers.armed.map Timer.handle :=
    List.mem_map_of_mem armed
  rwa [mindful, Option.mem_toList] at member

/-- To remove the timer that it keeps the handle of leaves a mindful alarm without timers. -/
theorem Mindful.armed_remove
    {alarm : Alarm α Listener}
    (mindful : alarm.Mindful)
    {handle : Nat}
    (kept : alarm.handle = some handle) :
    (alarm.timers.remove handle).armed = [] := by
  unfold Mindful at mindful
  rw [kept, Option.toList_some, List.map_eq_singleton_iff] at mindful
  obtain ⟨timer, only, handle_eq⟩ := mindful
  simp [Timers.remove, only, handle_eq]

end Alarm

namespace Timers

variable {α : Type} [Arithmetic α]

theorem sooner_cases (first second : Timer α) :
    sooner first second = first ∨ sooner first second = second := by
  unfold sooner
  split
  · exact .inr rfl
  · exact .inl rfl

theorem foldl_sooner_mem (first : Timer α) (rest : List (Timer α)) :
    rest.foldl sooner first ∈ first :: rest := by
  induction rest generalizing first with
  | nil => exact List.mem_singleton.mpr rfl
  | cons second rest inductionHypothesis =>
      have later := inductionHypothesis (sooner first second)
      rw [List.foldl_cons]
      obtain sooner_eq | sooner_eq := sooner_cases first second
      · rw [sooner_eq] at later ⊢
        exact List.cons_subset_cons first (List.subset_cons_self second rest) later
      · rw [sooner_eq] at later ⊢
        exact List.mem_cons_of_mem first later

/-- The timer that expires next is an armed one. -/
theorem mem_of_nextDue?_eq_some
    {timers : Timers α}
    {clock : α}
    {timer : Timer α}
    (due : timers.nextDue? clock = some timer) :
    timer ∈ timers.armed := by
  unfold nextDue? earliest? at due
  split at due
  · contradiction
  · next first rest filtered =>
      have member := foldl_sooner_mem first rest
      rw [Option.some.inj due, ← filtered] at member
      exact List.mem_of_mem_filter member

end Timers

namespace ReactiveAlarm

variable {α : Type}

/-- Whether an alarm runs after an event, which may have run before it. -/
def Event.runs (running : Bool) : Event α → Bool
  | .timer (.armed _) => true
  | .timer .cancelled | .timer (.expired _) => false
  | .heard _ _ => running

/-- Whether a timer is armed in an event. -/
def Event.arms : Event α → Bool
  | .timer (.armed _) => true
  | .timer .cancelled | .timer (.expired _) | .heard _ _ => false

/-- Whether a listener is told in an event. -/
def Event.isHeard : Event α → Bool
  | .heard _ _ => true
  | .timer _ => false

/-- Whether an alarm runs after some events. -/
def runsAfter (running : Bool) (events : List (Event α)) : Bool :=
  events.foldl Event.runs running

/-- Whether a timer is armed in some events while the alarm runs already. -/
def restarts (running : Bool) : List (Event α) → Bool
  | [] => false
  | event :: rest => (running && event.arms) || restarts (event.runs running) rest

theorem runsAfter_append (running : Bool) (first second : List (Event α)) :
    runsAfter running (first ++ second) = runsAfter (runsAfter running first) second :=
  List.foldl_append

theorem restarts_append (running : Bool) (first second : List (Event α)) :
    restarts running (first ++ second) =
      (restarts running first || restarts (runsAfter running first) second) := by
  induction first generalizing running with
  | nil => rfl
  | cons event rest inductionHypothesis =>
      simp only [List.cons_append, restarts, inductionHypothesis, Bool.or_assoc]
      rfl

/-- The state of an alarm as its history tells it. -/
structure Told (events : List (Event α)) (alarm : ReactiveAlarm α) : Prop where
  /-- The alarm knows the timer that was armed last. -/
  knowing : Alarm.Knowing alarm
  /-- The last event of a timer tells whether the alarm runs. -/
  running : alarm.running = runsAfter false events
  /-- An alarm that was never started while it ran has forgotten no timer. -/
  mindful : restarts false events = false → Alarm.Mindful alarm

theorem told_unused : Told [] (Alarm.unused : ReactiveAlarm α) where
  knowing := {
    running := rfl
    armed := fun handle member => by contradiction
    issued := fun timer member => by contradiction }
  running := rfl
  mindful _ := rfl

section Steps

variable {events : List (Event α)} {alarm : ReactiveAlarm α}

/-- What has happened without a restart had none before. -/
theorem not_restarts_of_append
    {running : Bool}
    {first second : List (Event α)}
    (none : restarts running (first ++ second) = false) :
    restarts running first = false ∧
      restarts (runsAfter running first) second = false := by
  rwa [restarts_append, Bool.or_eq_false_iff] at none

theorem Told.listen (told : Told events alarm) (listener : Listener α) :
    Told events (Alarm.listen alarm listener) where
  knowing := ⟨told.knowing.running, told.knowing.armed, told.knowing.issued⟩
  running := told.running
  mindful := told.mindful

theorem Told.heard (told : Told events alarm) (label : String) (running : Bool) :
    Told (events ++ [.heard label running]) alarm where
  knowing := told.knowing
  running := by
    rw [runsAfter_append]
    exact told.running
  mindful none := told.mindful (not_restarts_of_append none).1

theorem Told.ring
    (told : Told events alarm)
    {timer : Timer α}
    (armed : timer ∈ alarm.timers.armed)
    (clock : α) :
    Told (events ++ [.timer (.expired clock)]) (Alarm.ring alarm timer) where
  knowing := {
    running := rfl
    armed := fun handle member => by contradiction
    issued := by
      intro other member
      exact told.knowing.issued other ((Timers.mem_armed_remove _ _ _).mp member).1 }
  running := by
    rw [runsAfter_append]
    rfl
  mindful none := by
    have mindful := told.mindful (not_restarts_of_append none).1
    change (alarm.timers.remove timer.handle).armed.map Timer.handle = []
    rw [mindful.armed_remove (mindful.handle_eq armed), List.map_nil]

theorem Told.reset (told : Told events alarm) :
    Told (events ++ (reset alarm).events) (reset alarm).state := by
  unfold ReactiveAlarm.reset Alarm.reset
  split
  · next gone =>
      change Told (events ++ []) ⟨false, none, [], alarm.timers⟩
      rw [List.append_nil]
      refine ⟨⟨rfl, nofun, told.knowing.issued⟩, ?_, ?_⟩
      · rw [← told.running, told.knowing.running, gone]
        rfl
      · intro none
        have mindful := told.mindful none
        unfold Alarm.Mindful at mindful
        rwa [gone] at mindful
  · next handle kept =>
      change Told (events ++ [.timer .cancelled])
        ⟨false, none, [], alarm.timers.remove handle⟩
      refine ⟨⟨rfl, nofun, ?_⟩, ?_, ?_⟩
      · intro timer member
        exact told.knowing.issued timer ((Timers.mem_armed_remove _ _ _).mp member).1
      · rw [runsAfter_append]
        rfl
      · intro none
        have mindful := told.mindful (not_restarts_of_append none).1
        change (alarm.timers.remove handle).armed.map Timer.handle = []
        rw [mindful.armed_remove kept, List.map_nil]

/-- A reset arms no timer. -/
theorem restarts_reset (running : Bool) (alarm : ReactiveAlarm α) :
    restarts running (reset alarm).events = false := by
  unfold ReactiveAlarm.reset Alarm.reset
  split
  · rfl
  · cases running <;> rfl

/-- What follows an operation that cannot fail. -/
theorem Told.andThen
    {first : Result α}
    {second : ReactiveAlarm α → Result α}
    (told : Told (events ++ first.events ++ (second first.state).events)
      (second first.state).state) :
    Told (events ++ (first.andThen second).events) (first.andThen second).state := by
  rw [Outcome.andThen_of_faultless (Subsingleton.elim _ _), ← List.append_assoc]
  exact told

variable [Arithmetic α]

theorem Told.start (told : Told events alarm) (clock delay : α) :
    Told (events ++ (start alarm clock delay).events) (start alarm clock delay).state where
  knowing := {
    running := rfl
    armed := by
      intro handle kept
      refine ⟨⟨alarm.timers.issued, clock + delay⟩, ?_, Option.some.inj kept⟩
      exact List.mem_append_right _ List.mem_cons_self
    issued := by
      change ∀ timer ∈ alarm.timers.armed ++ [_], timer.handle < alarm.timers.issued + 1
      rw [List.forall_mem_append, List.forall_mem_singleton]
      refine ⟨fun timer member => ?_, Nat.lt_succ_self _⟩
      exact Nat.lt_succ_of_lt (told.knowing.issued timer member) }
  running := by
    rw [runsAfter_append]
    rfl
  mindful none := by
    obtain ⟨before, now⟩ := not_restarts_of_append none
    change (runsAfter false events && true || false) = false at now
    rw [Bool.and_true, Bool.or_false, ← told.running, told.knowing.running,
      Option.isSome_eq_false_iff, Option.isNone_iff_eq_none] at now
    change (alarm.timers.armed ++ [_]).map Timer.handle = [alarm.timers.issued]
    rw [(told.mindful before).armed_eq_nil_iff.mpr now]
    rfl

theorem Told.react (told : Told events alarm) (clock : α) (reaction : Reaction α) :
    Told (events ++ (react alarm clock reaction).events)
      (react alarm clock reaction).state := by
  cases reaction with
  | reset => exact told.reset
  | start delay => exact told.start clock delay

/-- A listener may do several things, such as to reset the alarm and start it again. -/
theorem Told.reactAll
    (told : Told events alarm)
    (clock : α)
    (reactions : List (Reaction α)) :
    Told (events ++ (reactAll clock reactions alarm).events)
      (reactAll clock reactions alarm).state := by
  induction reactions generalizing events alarm with
  | nil =>
      change Told (events ++ []) alarm
      rwa [List.append_nil]
  | cons reaction rest inductionHypothesis =>
      exact Told.andThen (inductionHypothesis (told.react clock reaction))

theorem Told.tell (told : Told events alarm) (clock : α) (listeners : List (Listener α)) :
    Told (events ++ (tell clock listeners alarm).events)
      (tell clock listeners alarm).state := by
  induction listeners generalizing events alarm with
  | nil =>
      change Told (events ++ []) alarm
      rwa [List.append_nil]
  | cons listener rest inductionHypothesis =>
      have heard := told.heard listener.label alarm.running
      have reacted := heard.reactAll clock listener.reactions
      apply Told.andThen
      rw [Outcome.andThen_reporting, ← List.append_assoc]
      exact inductionHypothesis reacted

/-- As long as no timer is due, nothing happens. -/
theorem advanceWithin_of_none
    {target : α}
    (none : alarm.timers.nextDue? target = none)
    (expiries : Nat)
    (clock : α) :
    owner.advanceWithin target expiries clock alarm = .done (target, alarm) := by
  cases expiries with
  | zero => rfl
  | succ expiries =>
      simp only [TimerOwner.advanceWithin, owner, none]

/-- When a timer is due, the listeners are told of it, and then time passes on. -/
theorem advanceWithin_of_due
    {target : α}
    {timer : Timer α}
    (due : alarm.timers.nextDue? target = some timer)
    (expiries : Nat)
    (clock : α) :
    let expiredAt := Arithmetic.larger clock timer.due
    let heard := tell expiredAt alarm.listeners (Alarm.ring alarm timer)
    let rest := owner.advanceWithin target expiries expiredAt heard.state
    owner.advanceWithin target (expiries + 1) clock alarm =
      ⟨rest.state, [.timer (.expired expiredAt)] ++ heard.events ++ rest.events,
        rest.fault⟩ := by
  intro expiredAt heard rest
  simp only [TimerOwner.advanceWithin, owner, due]
  rw [Outcome.andThen_of_faultless (Subsingleton.elim _ _)]
  simp only [Outcome.within, Outcome.andThen_reporting, List.map_id]
  rfl

/-- While time passes, one timer after the other expires. -/
theorem Told.advanceWithin
    (told : Told events alarm)
    (target : α)
    (expiries : Nat)
    (clock : α) :
    let outcome := owner.advanceWithin target expiries clock alarm
    Told (events ++ outcome.events) outcome.state.2 := by
  induction expiries generalizing events alarm clock with
  | zero =>
      change Told (events ++ []) alarm
      rwa [List.append_nil]
  | succ expiries inductionHypothesis =>
      cases due : alarm.timers.nextDue? target with
      | none =>
          rw [advanceWithin_of_none due]
          change Told (events ++ []) alarm
          rwa [List.append_nil]
      | some timer =>
          have rung := told.ring (Timers.mem_of_nextDue?_eq_some due)
            (Arithmetic.larger clock timer.due)
          have heard := rung.tell (Arithmetic.larger clock timer.due) alarm.listeners
          have later := inductionHypothesis heard (Arithmetic.larger clock timer.due)
          rw [advanceWithin_of_due due]
          dsimp only
          rw [← List.append_assoc, ← List.append_assoc]
          exact later

end Steps

end ReactiveAlarm

namespace AlarmSession

open ReactiveAlarm

variable {α : Type} [Arithmetic α] {session : AlarmSession α}

/-- What happens in a session while several things are done. -/
def eventsDuring (session : AlarmSession α) : List (Action α) → List (Event α)
  | [] => []
  | action :: rest =>
    let outcome := session.perform action
    outcome.events ++ outcome.state.eventsDuring rest

/-- Whether an action starts the alarm. -/
def Action.starts : Action α → Bool
  | .start _ => true
  | .listen _ | .reset | .advance _ => false

theorem told_perform
    {events : List (Event α)}
    (told : Told events session.alarm)
    (action : Action α) :
    Told (events ++ (session.perform action).events) (session.perform action).state.alarm := by
  cases action with
  | listen listener =>
      change Told (events ++ []) _
      rw [List.append_nil]
      exact told.listen listener
  | start delay =>
      have started := told.start session.clock delay
      simpa [perform, Outcome.within] using started
  | reset =>
      have reset := told.reset
      simpa [perform, Outcome.within] using reset
  | advance span =>
      have advanced :=
        told.advanceWithin (session.clock + span) TimerOwner.expiryBudget session.clock
      simpa [perform, Outcome.within, TimerOwner.advance] using advanced

theorem told_after
    {events : List (Event α)}
    (told : Told events session.alarm)
    (actions : List (Action α)) :
    Told (events ++ session.eventsDuring actions) (session.after actions).alarm := by
  induction actions generalizing events session with
  | nil =>
      change Told (events ++ []) session.alarm
      rwa [List.append_nil]
  | cons action rest inductionHypothesis =>
      have later := inductionHypothesis (told_perform told action)
      rwa [List.append_assoc] at later

/-- An alarm that has been reset and forgot no timer is without any. -/
structure Silent (session : AlarmSession α) : Prop where
  /-- It keeps no handle. -/
  handle : session.alarm.handle = none
  /-- No timer is armed. -/
  armed : session.alarm.timers.armed = []

theorem Silent.perform
    (silent : session.Silent)
    {action : Action α}
    (unstarted : action.starts = false) :
    (session.perform action).state.Silent ∧ (session.perform action).events = [] := by
  cases action with
  | listen listener => exact ⟨⟨silent.handle, silent.armed⟩, rfl⟩
  | start delay => contradiction
  | reset =>
      have nothing : ReactiveAlarm.reset session.alarm =
          .done ⟨false, none, [], session.alarm.timers⟩ := by
        simp only [ReactiveAlarm.reset, Alarm.reset, silent.handle]
        rfl
      unfold AlarmSession.perform
      rw [nothing]
      exact ⟨⟨rfl, silent.armed⟩, rfl⟩
  | advance span =>
      have none : session.alarm.timers.nextDue? (session.clock + span) = none := by
        rw [Timers.nextDue?, silent.armed]
        rfl
      simp only [AlarmSession.perform, TimerOwner.advance]
      rw [advanceWithin_of_none none]
      exact ⟨⟨silent.handle, silent.armed⟩, rfl⟩

theorem Silent.eventsDuring
    (silent : session.Silent)
    {actions : List (Action α)}
    (unstarted : ∀ action ∈ actions, action.starts = false) :
    session.eventsDuring actions = [] := by
  induction actions generalizing session with
  | nil => rfl
  | cons action rest inductionHypothesis =>
      obtain ⟨now, later⟩ := List.forall_mem_cons.mp unstarted
      obtain ⟨performed, nothing⟩ := silent.perform now
      change (session.perform action).events ++
        (session.perform action).state.eventsDuring rest = []
      rw [nothing, inductionHypothesis performed later, List.append_nil]

omit [Arithmetic α] in
/-- A mindful alarm that does not run has no timer. -/
theorem silent_of_not_running
    {events : List (Event α)}
    (told : Told events session.alarm)
    (mindful : Alarm.Mindful session.alarm)
    (stopped : session.alarm.running = false) :
    session.Silent := by
  rw [told.knowing.running, Option.isSome_eq_false_iff, Option.isNone_iff_eq_none] at stopped
  exact ⟨stopped, mindful.armed_eq_nil_iff.mpr stopped⟩

/-- What happens in any session tells its state. -/
theorem told_of_session (actions : List (Action α)) :
    Told (fresh.eventsDuring actions) (fresh.after actions).alarm := by
  have unused : Told [] (fresh : AlarmSession α).alarm := told_unused
  exact told_after unused actions

/-- A running alarm that is started again forgets a timer, which no reset cancels. -/
theorem armed_of_restart
    {events : List (Event α)}
    (told : Told events session.alarm)
    (runs : session.alarm.running = true)
    (delay : α) :
    (session.after [.start delay, .reset]).alarm.timers.armed ≠ [] := by
  rw [told.knowing.running, Option.isSome_iff_exists] at runs
  obtain ⟨handle, kept⟩ := runs
  obtain ⟨timer, member, rfl⟩ := told.knowing.armed handle kept
  have forgotten := (told.knowing.issued timer member).ne
  apply List.ne_nil_of_mem (a := timer)
  exact (Timers.mem_armed_remove _ _ _).mpr ⟨List.mem_append_left _ member, forgotten⟩

/-- An alarm runs as long as a timer is armed, unless it is started while it runs.  In any
session with an alarm, whoever starts and resets it, the last event of a timer tells whether
it runs, and while it runs a timer is armed.  If it was never started while it ran, then it
runs just if a timer is armed, there is never more than one, and a reset leaves none; from
then on, and whenever else it does not run, nothing happens until it is started.  A start
while it runs, however, leaves a timer behind that the next reset does not cancel. -/
theorem running_iff_armed (actions : List (Action α)) :
    let session := (fresh : AlarmSession α).after actions
    let events := (fresh : AlarmSession α).eventsDuring actions
    let reset := session.after [.reset]
    (session.alarm.running = runsAfter false events ∧
        (session.alarm.running = true → session.alarm.timers.armed ≠ [])) ∧
      (restarts false events = false →
        ((session.alarm.running = true ↔ session.alarm.timers.armed ≠ []) ∧
            session.alarm.timers.armed.length ≤ 1) ∧
          (reset.alarm.running = false ∧ reset.alarm.timers.armed = []) ∧
          ∀ further : List (Action α), (∀ action ∈ further, action.starts = false) →
            reset.eventsDuring further = [] ∧
              (session.alarm.running = false → session.eventsDuring further = [])) ∧
      (session.alarm.running = true → ∀ delay,
        let restarted := session.after [.start delay, .reset]
        restarted.alarm.running = false ∧ restarted.alarm.timers.armed ≠ []) := by
  intro session events reset
  have told : Told events session.alarm := told_of_session actions
  have stops : ∀ session : AlarmSession α,
      (session.after [.reset]).alarm.running = false := by
    intro session
    exact Alarm.running_reset session.alarm
  refine ⟨⟨told.running, ?_⟩, ?_, ?_⟩
  · intro runs
    rw [told.knowing.running, Option.isSome_iff_exists] at runs
    obtain ⟨handle, kept⟩ := runs
    obtain ⟨timer, member, -⟩ := told.knowing.armed handle kept
    exact List.ne_nil_of_mem member
  · intro none
    have mindful := told.mindful none
    have resetTold : Told (events ++ (ReactiveAlarm.reset session.alarm).events) reset.alarm :=
      told.reset
    have resetMindful : Alarm.Mindful reset.alarm := by
      apply resetTold.mindful
      rw [restarts_append, none, restarts_reset]
      rfl
    have resetSilent := silent_of_not_running resetTold resetMindful (stops session)
    refine ⟨⟨?_, mindful.length_armed_le⟩, ⟨stops session, resetSilent.armed⟩, ?_⟩
    · rw [told.knowing.running, ne_eq, mindful.armed_eq_nil_iff, Option.isSome_iff_ne_none]
    · intro further unstarted
      refine ⟨resetSilent.eventsDuring unstarted, fun stopped => ?_⟩
      exact (silent_of_not_running told mindful stopped).eventsDuring unstarted
  · intro runs delay
    exact ⟨stops (session.after [.start delay]), armed_of_restart told runs delay⟩

/-- An alarm that rings once and is reset and started again by a listener, while another
listener looks on. -/
def startedAgain : List (Action Binary64) :=
  [.listen ⟨"first", [.reset, .start (.finite 5)]⟩,
    .listen ⟨"second", []⟩,
    .start (.finite 10),
    .advance (.finite 12)]

/-- A listener that is added after a reset. -/
def lateListener : List (Action Binary64) :=
  [.listen ⟨"late", []⟩, .advance (.finite 20)]

theorem running_iff_armed_startedAgain :
    let session := (fresh : AlarmSession Binary64).after startedAgain
    let reset := session.after [.reset]
    (restarts false ((fresh : AlarmSession Binary64).eventsDuring startedAgain) = false ∧
        session.alarm.running = true) ∧
      session.alarm.timers.armed ≠ [] ∧ reset.alarm.timers.armed = [] ∧
      reset.eventsDuring lateListener = [] ∧
      (session.after [.start (.finite 30), .reset]).alarm.timers.armed ≠ [] := by
  intro session reset
  have none :
      restarts false ((fresh : AlarmSession Binary64).eventsDuring startedAgain) = false := by
    decide +kernel
  have runs : session.alarm.running = true := by decide +kernel
  obtain ⟨⟨-, armed⟩, mindful, restarted⟩ := running_iff_armed startedAgain
  obtain ⟨-, ⟨-, disarmed⟩, quiet⟩ := mindful none
  have unstarted : ∀ action ∈ lateListener, action.starts = false := by
    simp [lateListener, Action.starts]
  exact ⟨⟨none, runs⟩, armed runs, disarmed, (quiet lateListener unstarted).1,
    (restarted runs (.finite 30)).2⟩

/-- An alarm that is started twice keeps a timer beyond its reset, and who listens only then
hears of it.  And when the older timer expires, the alarm does not run although the newer one
is armed. -/
theorem timers_gone_after_reset_refuted :
    let restarted := (fresh : AlarmSession Binary64).after
      [.start (.finite 10), .start (.finite 20)]
    let reset := restarted.after [.reset]
    let rung := restarted.after [.advance (.finite 10)]
    (reset.alarm.running = false ∧ reset.alarm.timers.armed ≠ [] ∧
        (reset.eventsDuring lateListener).any Event.isHeard = true) ∧
      rung.alarm.running = false ∧ rung.alarm.timers.armed ≠ [] := by
  decide +kernel

end AlarmSession
end Backpressure
