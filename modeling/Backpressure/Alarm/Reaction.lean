import Backpressure.Alarm
import Backpressure.Timers.Elapse

/-!
# Reacting to an alarm

Listeners that hear an alarm may act on it.  All listeners that were there when
it rang are told, even if one of them removes the others.
-/

namespace Backpressure

/-- One thing that a listener does with the alarm that it hears. -/
inductive Reaction (α : Type) where
  /-- Reset it. -/
  | reset
  /-- Start it again with a delay. -/
  | start (delay : α)

/-- A listener with a label to tell it from others. -/
structure Listener (α : Type) where
  /-- The label. -/
  label : String
  /-- What the listener does, one thing after the other. -/
  reactions : List (Reaction α)

/-- An alarm whose listeners act on it. -/
abbrev ReactiveAlarm (α : Type) :=
  Alarm α (Listener α)

namespace ReactiveAlarm

/-- What can be seen of such an alarm. -/
inductive Event (α : Type) where
  /-- Something happened to a timer. -/
  | timer (event : Timers.Event α)
  /-- A listener heard the alarm while it was running or not. -/
  | heard (label : String) (running : Bool)

variable {α : Type} [Arithmetic α]

/-- What an operation of such an alarm leaves behind; none can fail. -/
abbrev Result (α : Type) :=
  Outcome (Event α) Empty (ReactiveAlarm α)

/-- Reset the alarm. -/
def reset (alarm : ReactiveAlarm α) : Result α :=
  (Alarm.reset alarm).within .timer id

/-- Start the alarm at a clock reading. -/
def start (alarm : ReactiveAlarm α) (clock delay : α) : Result α :=
  (Alarm.start alarm clock delay).within .timer id

/-- Let a reaction take place. -/
def react (alarm : ReactiveAlarm α) (clock : α) : Reaction α → Result α
  | .reset => reset alarm
  | .start delay => start alarm clock delay

/-- Let some reactions take place one after the other. -/
def reactAll (clock : α) : List (Reaction α) → ReactiveAlarm α → Result α
  | [], alarm => .done alarm
  | reaction :: rest, alarm =>
    (react alarm clock reaction).andThen (reactAll clock rest)

/-- Tell some listeners one after the other. -/
def tell (clock : α) : List (Listener α) → ReactiveAlarm α → Result α
  | [], alarm => .done alarm
  | listener :: rest, alarm =>
    ((Outcome.reporting [Event.heard listener.label alarm.running] alarm).andThen
      (reactAll clock listener.reactions)).andThen (tell clock rest)

/-- How such an alarm takes part in passing time. -/
def owner : TimerOwner α (Event α) Empty (ReactiveAlarm α) where
  timers alarm := alarm.timers
  report := .timer
  expire timer clock alarm := tell clock alarm.listeners (Alarm.ring alarm timer)

end ReactiveAlarm

/-- An alarm together with the clock that it runs by. -/
structure AlarmSession (α : Type) where
  /-- The clock reading. -/
  clock : α
  /-- The alarm. -/
  alarm : ReactiveAlarm α

namespace AlarmSession

/-- What can be done with an alarm. -/
inductive Action (α : Type) where
  /-- Add a listener. -/
  | listen (listener : Listener α)
  /-- Start it with a delay. -/
  | start (delay : α)
  /-- Reset it. -/
  | reset
  /-- Let time pass. -/
  | advance (span : α)

variable {α : Type} [Arithmetic α]

/-- A session with an unused alarm, whose clock starts at zero. -/
def fresh : AlarmSession α :=
  ⟨0, Alarm.unused⟩

/-- Do something with the alarm. -/
def perform (session : AlarmSession α) :
    Action α → Outcome (ReactiveAlarm.Event α) Empty (AlarmSession α)
  | .listen listener =>
    .done { session with alarm := Alarm.listen session.alarm listener }
  | .start delay =>
    (ReactiveAlarm.start session.alarm session.clock delay).within id
      fun alarm => { session with alarm }
  | .reset =>
    (ReactiveAlarm.reset session.alarm).within id
      fun alarm => { session with alarm }
  | .advance span =>
    (ReactiveAlarm.owner.advance span session.clock session.alarm).within id
      fun reached => ⟨reached.1, reached.2⟩

/-- The session after several actions. -/
def after (session : AlarmSession α) (actions : List (Action α)) :
    AlarmSession α :=
  actions.foldl (fun current action => (current.perform action).state) session

end AlarmSession
end Backpressure
