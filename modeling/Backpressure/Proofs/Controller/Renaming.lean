import Backpressure.Proofs.Controller.Steps

/-!
# Renaming positions and clock readings

Positions and clock readings are names: a controller looks only at how far apart
they are.  Here both are renamed everywhere in a controller, and what is fixed
for its life may change along with them.  A renaming that keeps spans of time
commutes with any report, as long as the few comparisons of positions and checks
that the report makes have the same results.
-/

namespace Backpressure

/-- Other names for positions and for clock readings. -/
structure Naming (α : Type) where
  /-- What is fixed for the life of a controller with the new names. -/
  config : Config α → Config α
  /-- The new name of a position. -/
  position : α → α
  /-- The new name of a clock reading. -/
  reading : α → α

section Names

variable {α : Type}

/-- A probe with its position and its clock reading renamed. -/
def Probe.renamed (names : Naming α) (probe : Probe α) : Probe α :=
  { probe with
    sentAt := names.reading probe.sentAt
    position := names.position probe.position }

@[simp] theorem Probe.position_renamed (names : Naming α) (probe : Probe α) :
    (probe.renamed names).position = names.position probe.position := rfl

namespace Controller

/-- The same report with another total. -/
def Action.map {β : Type} (change : α → β) : Action α → Action β
  | .recordProgress total => .recordProgress (change total)
  | .probeSent => .probeSent
  | .probeAnswered => .probeAnswered

variable (names : Naming α)

/-- A controller with all positions and clock readings renamed. -/
def renamed (controller : Controller α) : Controller α :=
  { controller with
    config := names.config controller.config
    position := names.position controller.position
    updatedAt := names.reading controller.updatedAt
    busyAt := names.reading controller.busyAt
    adjustedAt := names.reading controller.adjustedAt
    answeredAt := names.reading controller.answeredAt
    answered := controller.answered.renamed names
    pending := controller.pending.map (Probe.renamed names) }

/-- What an operation leaves behind, with the controller renamed. -/
def Result.renamed (result : Result α) : Result α :=
  result.within id (Controller.renamed names)

variable (controller : Controller α)

@[simp] theorem position_renamed :
    (controller.renamed names).position = names.position controller.position :=
  rfl

@[simp] theorem base_renamed :
    (controller.renamed names).base = controller.base := rfl

@[simp] theorem answered_renamed :
    (controller.renamed names).answered = controller.answered.renamed names :=
  rfl

@[simp] theorem pending_renamed :
    (controller.renamed names).pending =
      controller.pending.map (Probe.renamed names) := rfl

end Controller
end Names

/-! ## Spans of time -/

variable {α : Type} [Arithmetic α]

/-- Spans of time, the order of clock readings and the window to start with stay
as they are. -/
structure Naming.Steady (names : Naming α) : Prop where
  /-- The window to start with does not change. -/
  initialWindow : ∀ config,
    (names.config config).initialWindow = config.initialWindow
  /-- A span of time does not change. -/
  elapsed : ∀ earlier later,
    Time.elapsed (names.reading earlier) (names.reading later) =
      Time.elapsed earlier later
  /-- Neither does the order of two readings. -/
  less : ∀ first second,
    names.reading first < names.reading second ↔ first < second

namespace Controller

section Steps

variable {names : Naming α} (steady : names.Steady)
variable (controller : Controller α) (now : α)

include steady

/-! ## Reports of progress -/

theorem surplusAfter_renamed (added : α) :
    (controller.renamed names).surplusAfter (names.reading now) added =
      controller.surplusAfter now added := by
  unfold surplusAfter renamed
  simp only [steady.elapsed]

omit steady in
theorem noteActivity_renamed (added : α) :
    (controller.renamed names).noteActivity (names.reading now) added =
      (controller.noteActivity now added).renamed names := by
  unfold noteActivity
  rw [apply_ite (Controller.renamed names)]
  rfl

theorem checkIdle_renamed :
    (controller.renamed names).checkIdle (names.reading now) =
      (controller.checkIdle now).renamed names := by
  have idle_eq : Time.elapsed (controller.renamed names).busyAt
      (names.reading now) = Time.elapsed controller.busyAt now :=
    steady.elapsed _ _
  have reset_eq (idle : α) :
      (controller.renamed names).resetAfterIdle (names.reading now) idle =
        (controller.resetAfterIdle now idle).renamed names := by
    unfold resetAfterIdle renamed
    rw [steady.initialWindow]
    rfl
  simp only [checkIdle]
  rw [idle_eq, reset_eq, apply_ite (Result.renamed names)]
  rfl

/-- A report of progress can be renamed if the new position is the new name of
the old one, and as many bytes are added. -/
theorem recordProgress_renamed
    {total renamedTotal : α}
    (position_eq :
      (names.config controller.config).counting.position renamedTotal =
        names.position (controller.config.counting.position total))
    (added_eq : (controller.renamed names).added renamedTotal =
      controller.added total) :
    (controller.renamed names).recordProgress (names.reading now)
        renamedTotal =
      (controller.recordProgress now total).renamed names := by
  let rest (checked : Controller α) : Result α :=
    .done (checked.reported (names.reading now)
      (names.position (controller.config.counting.position total))
      (controller.added total))
  have same : ∀ checked : Controller α,
      rest (checked.renamed names) =
        Result.renamed names (.done (checked.reported now
          (controller.config.counting.position total)
          (controller.added total))) := by
    intro checked
    simp only [rest, reported, surplusAfter_renamed steady]
    rfl
  have newPosition_eq :
      (controller.renamed names).config.counting.position renamedTotal =
        names.position (controller.config.counting.position total) :=
    position_eq
  calc (controller.renamed names).recordProgress (names.reading now)
        renamedTotal
      = (((controller.renamed names).noteActivity (names.reading now)
          (controller.added total)).checkIdle
            (names.reading now)).andThen rest := by
        rw [recordProgress_eq, added_eq, newPosition_eq]
    _ = Outcome.andThen (((controller.noteActivity now
          (controller.added total)).checkIdle now).renamed names) rest := by
        rw [noteActivity_renamed, checkIdle_renamed steady]
    _ = (controller.recordProgress now total).renamed names :=
        (Outcome.within_andThen rest same).symm

/-! ## Probes -/

theorem extraNow_renamed :
    (controller.renamed names).extraNow (names.reading now) =
      controller.extraNow now := by
  unfold extraNow renamed
  simp only [steady.elapsed]

/-- A report of a probe can be renamed if the window is full under both
names. -/
theorem probeSent_renamed
    (congested_eq :
      (controller.renamed names).isCongested (names.reading now) =
        controller.isCongested now) :
    (controller.renamed names).probeSent (names.reading now) =
      (controller.probeSent now).renamed names := by
  have probe_eq :
      (controller.renamed names).probeNow (names.reading now) =
        (controller.probeNow now).renamed names := by
    unfold probeNow Probe.renamed
    rw [congested_eq, extraNow_renamed steady]
    rfl
  have pending_eq : (controller.renamed names).pending ++
        [(controller.renamed names).probeNow (names.reading now)] =
      (controller.pending ++ [controller.probeNow now]).map
        (Probe.renamed names) := by
    rw [probe_eq, List.map_append]
    rfl
  unfold probeSent
  simp only [pending_eq, List.length_map]
  rw [Result.renamed, Outcome.within, List.map_id]
  rfl

/-! ## Answers -/

omit steady in
/-- An adjustment can be renamed if the same order is checked under both names,
or if it holds. -/
theorem adjustWindow_renamed
    {base lowest : α}
    (checked : (names.config controller.config).verifyInvariants =
        controller.config.verifyInvariants ∨
      controller.violation base lowest = none) :
    (controller.renamed names).adjustWindow (names.reading now) base
        lowest =
      (controller.adjustWindow now base lowest).renamed names := by
  have fault_eq : (if (controller.renamed names).config.verifyInvariants then
        (controller.renamed names).violation base lowest else none) =
      if controller.config.verifyInvariants then
        controller.violation base lowest else none := by
    change (if (names.config controller.config).verifyInvariants then
      controller.violation base lowest else none) = _
    obtain same | passes := checked
    · rw [same]
    · rw [passes, ite_self, ite_self]
  unfold adjustWindow
  rw [fault_eq, apply_ite (Result.renamed names)]
  apply congrArg (ite _ _)
  cases (if controller.config.verifyInvariants then
      controller.violation base lowest else none) with
  | none => rfl
  | some reason => rfl

omit steady in
/-- So can a sample. -/
theorem sample_renamed
    {base roundTrip : α}
    {probe : Probe α}
    (checked : (names.config controller.config).verifyInvariants =
        controller.config.verifyInvariants ∨
      let compensated := controller.compensated base roundTrip probe.extra
      (controller.addSample compensated probe.congested).violation base
        (lowered controller.lowest compensated) = none) :
    (controller.renamed names).sample (names.reading now) base roundTrip
        (probe.renamed names) =
      (controller.sample now base roundTrip probe).renamed names :=
  adjustWindow_renamed (controller.addSample
    (controller.compensated base roundTrip probe.extra) probe.congested) now
    checked

/-- An answer can be renamed if its sample can.  It compares no positions. -/
theorem probeAnswered_renamed
    (sample_eq : ∀ probe rest, controller.pending = probe :: rest →
      ((controller.measured now probe rest).renamed names).sample
          (names.reading now) (lowered controller.base (roundTrip probe now))
          (roundTrip probe now) (probe.renamed names) =
        ((controller.measured now probe rest).sample now
          (lowered controller.base (roundTrip probe now))
          (roundTrip probe now) probe).renamed names) :
    (controller.renamed names).probeAnswered (names.reading now) =
      (controller.probeAnswered now).renamed names := by
  cases pending : controller.pending with
  | nil =>
      have stillPending : (controller.renamed names).pending = [] := by
        rw [pending_renamed, pending, List.map_nil]
      rw [probeAnswered_of_stray pending, probeAnswered_of_stray stillPending]
      rfl
  | cons probe rest =>
      have stillPending : (controller.renamed names).pending =
          probe.renamed names :: rest.map (Probe.renamed names) := by
        rw [pending_renamed, pending, List.map_cons]
      have roundTrip_eq :
          roundTrip (probe.renamed names) (names.reading now) =
            roundTrip probe now := by
        unfold roundTrip Probe.renamed
        rw [steady.elapsed]
      have measured_eq :
          (controller.renamed names).measured (names.reading now)
              (probe.renamed names) (rest.map (Probe.renamed names)) =
            (controller.measured now probe rest).renamed names := by
        unfold measured
        rw [roundTrip_eq]
        rfl
      have stale_iff :
          (probe.renamed names).sentAt < (controller.renamed names).adjustedAt ↔
            probe.sentAt < controller.adjustedAt :=
        steady.less _ _
      rw [probeAnswered_of_pending pending,
        probeAnswered_of_pending stillPending, roundTrip_eq, measured_eq,
        base_renamed, sample_eq probe rest pending,
        apply_ite (Result.renamed names)]
      simp only [stale_iff]
      rfl

end Steps

end Controller
end Backpressure
