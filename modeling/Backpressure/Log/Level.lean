import Backpressure.Text.Capital

/-!
# Log levels

Every message has a level, and a logger with a threshold lets the messages at
or above it pass.
-/

namespace Backpressure
namespace Log

/-- Levels in ascending order.  The outer two are thresholds only. -/
inductive Level where
  | all
  | trace
  | debug
  | info
  | warn
  | error
  | fatal
  | mark
  | off
  deriving DecidableEq, Repr

namespace Level

/-- The levels in ascending order. -/
def ascending : List Level :=
  [all, trace, debug, info, warn, error, fatal, mark, off]

/-- The place of a level in the order. -/
def rank : Level → Nat
  | all => 0
  | trace => 1
  | debug => 2
  | info => 3
  | warn => 4
  | error => 5
  | fatal => 6
  | mark => 7
  | off => 8

/-- The name of a level in a log. -/
def name : Level → String
  | all => "ALL"
  | trace => "TRACE"
  | debug => "DEBUG"
  | info => "INFO"
  | warn => "WARN"
  | error => "ERROR"
  | fatal => "FATAL"
  | mark => "MARK"
  | off => "OFF"

/-- The level whose name a text has once it is in capitals. -/
def ofName? (text : String) : Option Level :=
  ascending.find? fun level => level.name == Text.capitals text

/-- Whether a logger with this threshold lets a level pass. -/
def admits (threshold level : Level) : Bool :=
  threshold.rank ≤ level.rank

end Level

/-- A message of a certain level. -/
structure Entry where
  /-- How important the message is. -/
  level : Level
  /-- The message itself, which is not interpreted. -/
  text : String
  deriving DecidableEq, Repr

/-- The messages that a threshold lets pass. -/
def admitted (threshold : Level) (entries : List Entry) : List Entry :=
  entries.filter fun entry => threshold.admits entry.level

end Log
end Backpressure
