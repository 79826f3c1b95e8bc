import Backpressure.Outcome
import Backpressure.Timers

/-!
# Alarms

An alarm runs one timer at a time and tells its listeners when the time is up.
It keeps the handle of the timer that was started last; a timer that it has lost
track of still expires.
-/

namespace Backpressure

/-- An alarm with listeners of some type, and the timers it has set. -/
structure Alarm (α Listener : Type) where
  /-- Whether the alarm was started and has neither rung nor been reset. -/
  running : Bool
  /-- The timer that was started last, unless the alarm has rung since. -/
  handle : Option Nat
  /-- The listeners in the order they were added. -/
  listeners : List Listener
  /-- The timers of this alarm. -/
  timers : Timers α

namespace Alarm

variable {α Listener Reason : Type}

/-- The name of the event that listeners hear. -/
def timeoutEvent : String := "alarm-timeout"

/-- An alarm that was never used. -/
def unused : Alarm α Listener :=
  ⟨false, none, [], Timers.empty⟩

/-- Add a listener. -/
def listen (alarm : Alarm α Listener) (listener : Listener) :
    Alarm α Listener :=
  { alarm with listeners := alarm.listeners ++ [listener] }

/-- Stop the alarm: cancel the timer it knows of and forget all listeners. -/
def reset (alarm : Alarm α Listener) :
    Outcome (Timers.Event α) Reason (Alarm α Listener) :=
  match alarm.handle with
  | none => .done ⟨false, none, [], alarm.timers⟩
  | some handle =>
    .reporting [.cancelled] ⟨false, none, [], alarm.timers.remove handle⟩

/-- Start the alarm at a clock reading; it rings after the delay.  Its timer is
due at the reading plus the delay, however long that is: what a platform does with
a delay that its timers cannot take, of some 25 days and more, is left out. -/
def start [Arithmetic α] (alarm : Alarm α Listener) (clock delay : α) :
    Outcome (Timers.Event α) Reason (Alarm α Listener) :=
  .reporting [.armed delay]
    { alarm with
      running := true
      handle := some alarm.timers.nextHandle
      timers := alarm.timers.arm (clock + delay) }

/-- The alarm when a timer of it has expired and its listeners are about to be
told. -/
def ring (alarm : Alarm α Listener) (timer : Timer α) : Alarm α Listener :=
  { alarm with
    running := false
    handle := none
    timers := alarm.timers.remove timer.handle }

@[simp] theorem listeners_reset (alarm : Alarm α Listener) :
    (alarm.reset : Outcome _ Reason _).state.listeners = [] := by
  unfold reset
  split <;> rfl

@[simp] theorem running_reset (alarm : Alarm α Listener) :
    (alarm.reset : Outcome _ Reason _).state.running = false := by
  unfold reset
  split <;> rfl

@[simp] theorem handle_reset (alarm : Alarm α Listener) :
    (alarm.reset : Outcome _ Reason _).state.handle = none := by
  unfold reset
  split <;> rfl

@[simp] theorem fault_reset (alarm : Alarm α Listener) :
    (alarm.reset : Outcome _ Reason _).fault = none := by
  unfold reset
  split <;> rfl

end Alarm
end Backpressure
