import Backpressure.Controller.Answer

/-!
# Histories of a controller

A controller is driven by three kinds of reports, each at a clock reading.
-/

namespace Backpressure
namespace Controller

/-- A report to a controller. -/
inductive Action (α : Type) where
  /-- The total of bytes handed over so far. -/
  | recordProgress (total : α)
  /-- A probe is about to be written. -/
  | probeSent
  /-- An answer arrived. -/
  | probeAnswered

variable {α : Type} [Arithmetic α]

/-- Take a report at a clock reading. -/
def perform (controller : Controller α) (now : α) : Action α → Result α
  | .recordProgress total => controller.recordProgress now total
  | .probeSent => controller.probeSent now
  | .probeAnswered => controller.probeAnswered now

/-- The outcomes of a history of reports, one after the other.  A fault ends
only the report that it happens in. -/
def outcomes (controller : Controller α) :
    List (α × Action α) → List (Result α)
  | [] => []
  | (now, action) :: rest =>
    let outcome := controller.perform now action
    outcome :: outcomes outcome.state rest

/-- The state after a history of reports. -/
def after (controller : Controller α) (history : List (α × Action α)) :
    Controller α :=
  history.foldl (fun current step => (current.perform step.1 step.2).state)
    controller

@[simp] theorem after_nil (controller : Controller α) :
    controller.after [] = controller := rfl

@[simp] theorem after_cons (controller : Controller α)
    (step : α × Action α) (history : List (α × Action α)) :
    controller.after (step :: history) =
      (controller.perform step.1 step.2).state.after history := rfl

theorem after_append (controller : Controller α)
    (first second : List (α × Action α)) :
    controller.after (first ++ second) = (controller.after first).after second :=
  List.foldl_append

end Controller
end Backpressure
