import Backpressure.Decimal.Text
import Backpressure.Window

/-!
# Failures

A fault is the cause of a failure; a failure is what a caller gets to see of
it, a name and a message.
-/

namespace Backpressure

/-- Why an operation ended early. -/
inductive Fault (α : Type) where
  /-- A controller was asked to start with a window it cannot have. -/
  | windowRefused (given : α)
  /-- The lowest round trip of all samples is below the wire latency. -/
  | lowestBelowBase (lowest base : α)
  /-- The lowest round trip of the congested samples is below the wire
  latency. -/
  | congestedBelowBase (lowest base : α)
  /-- The transport did not take a chunk. -/
  | forwardFailed
  /-- The transport did not take a probe. -/
  | probeFailed
  deriving DecidableEq

/-- Kinds of failures. -/
inductive Failure.Kind where
  /-- A failure of the transport. -/
  | transport
  /-- A failure of this library without a code. -/
  | general
  /-- A failure of the controller, with its code. -/
  | congestion (code : Binary64)
  deriving DecidableEq

/-- A failure as a caller sees it. -/
structure Failure where
  /-- The kind of the failure. -/
  kind : Failure.Kind
  /-- What went wrong. -/
  message : String
  deriving DecidableEq

namespace Failure

/-- The code of broken invariants. -/
def invariantViolation : Binary64 := Binary64.finite 1

/-- The code of refused options. -/
def invalidOption : Binary64 := Binary64.finite 2

/-- The text of what is not given. -/
def missing : String := "undefined"

/-- The label of a code. -/
def label (code : Binary64) : String :=
  if code = invariantViolation then "INVARIANT_VIOLATION"
  else if code = invalidOption then "INVALID_OPTION"
  else missing

/-- A failure of the controller.  Its message begins with the label of its
code. -/
def congestion (code : Binary64) (detail : Option String) : Failure :=
  ⟨.congestion code, label code ++ " : " ++ detail.getD missing⟩

/-- A failure without a code. -/
def general (detail : Option String) : Failure :=
  ⟨.general, detail.getD ""⟩

/-- A failure of the transport. -/
def transport (message : String) : Failure :=
  ⟨.transport, message⟩

/-- The name of a kind of failures. -/
def name (failure : Failure) : String :=
  match failure.kind with
  | .transport => "Error"
  | .general => "BaseError"
  | .congestion _ => "CongestionError"

/-- The code, if the failure has one. -/
def code? (failure : Failure) : Option Binary64 :=
  match failure.kind with
  | .congestion code => some code
  | _ => none

/-- Whether the failure is one of this library. -/
def isOwn (failure : Failure) : Bool :=
  match failure.kind with
  | .transport => false
  | _ => true

/-- The failure in one line: its name, and its message unless that is
empty. -/
def text (failure : Failure) : String :=
  if failure.message.isEmpty then failure.name
  else failure.name ++ ": " ++ failure.message

end Failure

/-- What a caller gets to see of a fault. -/
def Fault.failure : Fault Binary64 → Failure
  | windowRefused given =>
    .congestion Failure.invalidOption
      (some ("initialWindow must be an integer in [" ++
        toString Window.minimum ++ ", " ++ toString Window.maximum ++
        "], got " ++ given.text))
  | lowestBelowBase lowest base =>
    .congestion Failure.invariantViolation
      (some ("minRTT " ++ lowest.text ++ " below baseRTT " ++ base.text))
  | congestedBelowBase lowest base =>
    .congestion Failure.invariantViolation
      (some ("minCongestedRTT " ++ lowest.text ++ " below baseRTT " ++ base.text))
  | forwardFailed => .transport "forward failed"
  | probeFailed => .transport "probe failed"

end Backpressure
