import Backpressure.Log.Level

/-!
# Log configuration

Where the log goes and how much of it is kept, as the environment says.
-/

namespace Backpressure
namespace Log

/-- The environment variables that the library reads.  A variable may be set
to the empty text. -/
structure Environment where
  /-- The threshold of the log. -/
  level : Option String
  /-- The name of a log file. -/
  fileName : Option String
  /-- Whether the log leaves standard output alone. -/
  disableStandardOutput : Option String
  /-- Whether the controller checks its invariants. -/
  verifyInvariants : Option String

/-- A place that the log is written to. -/
inductive Destination where
  /-- Standard output. -/
  | console
  /-- A file with this path. -/
  | file (path : String)
  /-- Nowhere. -/
  | silent
  deriving DecidableEq, Repr

/-- The name that a destination has in a configuration. -/
def Destination.name : Destination → String
  | console => "consoleOut"
  | file _ => "fileOut"
  | silent => "silent"

/-- The settings of a destination, each with its name.  Nothing is written to
the silent one, because its threshold is `off`. -/
inductive Setting where
  /-- A text. -/
  | text (name value : String)
  /-- A number of bytes. -/
  | size (name : String) (bytes : Nat)
  /-- A group of texts. -/
  | group (name : String) (texts : List (String × String))
  deriving DecidableEq, Repr

/-- What the environment decides. -/
structure Configuration where
  /-- The threshold as it was given. -/
  levelText : String
  /-- The name of the log file, if there is one. -/
  fileName : Option String
  /-- The places the log is written to, at least one. -/
  destinations : List Destination
  /-- Whether controllers check their invariants unless told otherwise. -/
  verifyInvariants : Bool

namespace Configuration

/-- The type of the appender for standard output. -/
def consoleType : String := "stdout"

/-- The size in bytes at which a log file is rolled over. -/
def largestFile : Nat := 20971520

/-- The settings that a configuration has for a destination. -/
def settings : Destination → List Setting
  | .console => [.text "type" consoleType]
  | .file path =>
    [.text "type" "file",
     .text "filename" path,
     .size "maxLogSize" largestFile,
     .group "layout" [("type", "basic")]]
  | .silent =>
    [.text "type" "logLevelFilter",
     .text "appender" Destination.console.name,
     .text "level" "off"]

/-- The threshold without a word from the environment. -/
def defaultLevel : String := "info"

/-- The path of a log file. -/
def filePath (name : String) : String :=
  "./logs/" ++ name

/-- The destinations that an environment asks for: standard output unless it
is disabled, a file if one is named, and nowhere if neither remains. -/
def destinationsOf (environment : Environment) : List Destination :=
  let disabled := environment.disableStandardOutput.getD ""
  let console :=
    if disabled == "" || disabled == "false" then [Destination.console] else []
  let file := environment.fileName.toList.map fun name =>
    Destination.file (filePath name)
  match console ++ file with
  | [] => [Destination.silent]
  | destinations => destinations

/-- The configuration that an environment asks for.  An empty level counts as
none, and only the word `false` turns the checks off. -/
def ofEnvironment (environment : Environment) : Configuration :=
  let given := environment.level.getD ""
  { levelText := if given == "" then defaultLevel else given
    fileName := environment.fileName
    destinations := destinationsOf environment
    verifyInvariants := environment.verifyInvariants != some "false" }

/-- The destinations that a configuration describes: standard output is
described even if nothing is written to it. -/
def described (configuration : Configuration) : List Destination :=
  if .console ∈ configuration.destinations then configuration.destinations
  else .console :: configuration.destinations

/-- The threshold in force; a name that is no level leaves the default. -/
def level (configuration : Configuration) : Level :=
  (Level.ofName? configuration.levelText).getD .info

theorem destinationsOf_ne_nil (environment : Environment) :
    destinationsOf environment ≠ [] := by
  unfold destinationsOf
  simp only
  split <;> simp_all

end Configuration
end Log
end Backpressure
