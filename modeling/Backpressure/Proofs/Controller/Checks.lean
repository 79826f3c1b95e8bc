import Backpressure.Proofs.Binary64.Rank
import Backpressure.Proofs.Controller.Renaming
import Backpressure.Proofs.Window

/-!
# Checks that never fail

The order of the measured round trips is checked before an adjustment.  It holds
on its own, at any finite clock readings: the wire latency is the lowest round
trip of all, and samples are taken no lower than it.  Hence the checks make no
difference.
-/

namespace Backpressure
namespace Controller

open Binary64

/-! ## Round trips in order -/

/-- A known round trip is not below the wire latency, which is then known,
too. -/
def NotBelow (base known : Option Binary64) : Prop :=
  ∀ value, known = some value → ∃ low, base = some low ∧ low ≤ value

/-- The wire latency is below all measured round trips. -/
structure Ordered (controller : Controller Binary64) : Prop where
  /-- The wire latency is a number. -/
  base : ∀ base, controller.base = some base → base ≠ nan
  /-- The lowest round trip is not below it. -/
  lowest : NotBelow controller.base controller.lowest
  /-- Neither is the lowest one of the congested samples. -/
  lowestCongested : NotBelow controller.base controller.lowestCongested
  /-- The pending probes were sent at finite readings. -/
  pending : ∀ probe ∈ controller.pending, probe.sentAt.IsFinite

theorem NotBelow.le
    {base known : Option Binary64}
    {low value : Binary64}
    (notBelow : NotBelow base known)
    (base_eq : base = some low)
    (known_eq : known = some value) :
    low ≤ value := by
  obtain ⟨other, other_eq, other_le⟩ := notBelow value known_eq
  rw [base_eq, Option.some.injEq] at other_eq
  rwa [other_eq]

theorem notBelow_none (base : Option Binary64) : NotBelow base none := by
  intro value known
  contradiction

theorem ordered_fresh (config : Config Binary64) (now : Binary64) :
    (fresh config now).Ordered where
  base := fun base known => by contradiction
  lowest := notBelow_none _
  lowestCongested := notBelow_none _
  pending := fun probe member => by contradiction

/-- The lower one of two numbers is a number that is not above them. -/
theorem lowered_le
    {known : Option Binary64}
    {value : Binary64}
    (knownNumber : ∀ other, known = some other → other ≠ nan)
    (number : value ≠ nan) :
    lowered known value ≠ nan ∧ lowered known value ≤ value ∧
      ∀ other, known = some other → lowered known value ≤ other := by
  cases known with
  | none => exact ⟨number, Binary64.le_refl number, by simp⟩
  | some other =>
      have otherNumber := knownNumber other rfl
      simp only [Option.some.injEq, forall_eq', lowered]
      obtain ⟨smaller_eq, below⟩ | ⟨smaller_eq, below⟩ :=
        smaller_cases otherNumber number
      · rw [smaller_eq]
        exact ⟨otherNumber, below, Binary64.le_refl otherNumber⟩
      · rw [smaller_eq]
        exact ⟨number, Binary64.le_refl number, below⟩

/-- What is not above two numbers is not above the lower one. -/
theorem le_lowered
    {bound value : Binary64}
    {known : Option Binary64}
    (below_value : bound ≤ value)
    (below_known : ∀ other, known = some other → bound ≤ other) :
    bound ≤ lowered known value := by
  cases known with
  | none => exact below_value
  | some other =>
      have below_other := below_known other rfl
      obtain ⟨smaller_eq, -⟩ | ⟨smaller_eq, -⟩ :=
        smaller_cases (ne_nan_of_le below_other).2 (ne_nan_of_le below_value).2
      · rw [lowered, smaller_eq]
        exact below_other
      · rw [lowered, smaller_eq]
        exact below_value

/-- A round trip between finite readings is a number. -/
theorem roundTrip_ne_nan
    {probe : Probe Binary64}
    {now : Binary64}
    (sentFinite : probe.sentAt.IsFinite)
    (nowFinite : now.IsFinite) :
    roundTrip probe now ≠ nan := by
  have difference := subtract_ne_nan_of_isFinite nowFinite sentFinite
  have elapsed : Time.elapsed probe.sentAt now ≠ nan :=
    larger_ne_nan (by simp) (floor_ne_nan difference)
  exact larger_ne_nan (by simp) elapsed

/-- A sample is not below the wire latency, whatever its delay seems to be. -/
theorem le_compensated
    (controller : Controller Binary64)
    {base : Binary64}
    (baseNumber : base ≠ nan)
    (roundTrip extra : Binary64) :
    base ≤ controller.compensated base roundTrip extra := by
  have restNumber : (if Buffering.delay controller.window base extra < roundTrip
      then roundTrip - Buffering.delay controller.window base extra
      else 1) ≠ nan := by
    split
    · next less => exact subtract_ne_nan_of_less less
    · simp
  obtain ⟨larger_eq, above⟩ | ⟨larger_eq, -⟩ :=
    larger_cases restNumber baseNumber
  · simpa only [compensated, larger_eq] using above
  · simpa only [compensated, larger_eq] using Binary64.le_refl baseNumber

section Steps

variable {controller : Controller Binary64} {now : Binary64}

theorem Ordered.recordProgress
    (ordered : controller.Ordered)
    (total : Binary64) :
    (controller.recordProgress now total).state.Ordered := by
  have noted_eq := controller.noteActivity_eq now (controller.added total)
  rw [state_recordProgress]
  obtain ⟨_, reset⟩ | ⟨_, kept⟩ := controller.checked_cases now total
  · rw [reset, noted_eq]
    exact { ordered with
      base := fun base known => by contradiction
      lowest := notBelow_none _
      lowestCongested := notBelow_none _ }
  · rw [kept, noted_eq]
    exact { ordered with }

theorem Ordered.probeSent
    (ordered : controller.Ordered)
    (nowFinite : now.IsFinite) :
    (controller.probeSent now).state.Ordered := by
  rw [state_probeSent]
  exact { ordered with
    pending := by
      intro later member
      obtain early | last := List.mem_append.mp member
      · exact ordered.pending later early
      · rw [List.mem_singleton.mp last]
        exact nowFinite }

/-- Round trips in order are not found to be out of order. -/
theorem Ordered.violation_eq_none
    (ordered : controller.Ordered)
    {base lowest : Binary64}
    (known : controller.base = some base)
    (lowest_eq : controller.lowest = some lowest) :
    controller.violation base lowest = none := by
  simp only [violation, if_pos (ordered.lowest.le known lowest_eq)]
  cases congested_eq : controller.lowestCongested with
  | none => rfl
  | some congested =>
      simp only [if_pos (ordered.lowestCongested.le known congested_eq)]

/-- An answer can lower the wire latency, but not raise it above a known round
trip. -/
theorem Ordered.measured
    (ordered : controller.Ordered)
    (nowFinite : now.IsFinite)
    {probe : Probe Binary64}
    {rest : List (Probe Binary64)}
    (pending : controller.pending = probe :: rest) :
    (controller.measured now probe rest).Ordered := by
  have roundTripNumber : roundTrip probe now ≠ nan :=
    roundTrip_ne_nan (ordered.pending probe (pending ▸ List.mem_cons_self))
      nowFinite
  obtain ⟨loweredNumber, -, lowered_below⟩ :=
    lowered_le ordered.base roundTripNumber
  have still : ∀ known, NotBelow controller.base known →
      NotBelow (some (lowered controller.base (roundTrip probe now))) known := by
    intro known notBelow value known_eq
    obtain ⟨low, low_eq, low_le⟩ := notBelow value known_eq
    exact ⟨_, rfl, Binary64.le_trans (lowered_below low low_eq) low_le⟩
  exact {
    base := by
      intro base known
      rwa [← Option.some.inj known]
    lowest := still _ ordered.lowest
    lowestCongested := still _ ordered.lowestCongested
    pending := fun later member =>
      ordered.pending later (pending ▸ List.mem_cons_of_mem _ member) }

/-- A sample keeps the order. -/
theorem Ordered.addSample
    (ordered : controller.Ordered)
    {base value : Binary64}
    (known : controller.base = some base)
    (base_le : base ≤ value)
    (congested : Bool) :
    (controller.addSample value congested).Ordered := by
  have lowered_notBelow : ∀ other, NotBelow controller.base other →
      NotBelow controller.base (some (lowered other value)) := by
    intro other notBelow low low_eq
    refine ⟨base, known, ?_⟩
    rw [← Option.some.inj low_eq]
    exact le_lowered base_le fun measured => notBelow.le known
  exact { ordered with
    lowest := lowered_notBelow _ ordered.lowest
    lowestCongested := by
      change NotBelow controller.base (if congested
        then some (lowered controller.lowestCongested value)
        else controller.lowestCongested)
      split
      · exact lowered_notBelow _ ordered.lowestCongested
      · exact ordered.lowestCongested }

/-- An adjustment of round trips in order does not fail. -/
theorem Ordered.adjustWindow
    (ordered : controller.Ordered)
    {base lowest : Binary64}
    (known : controller.base = some base)
    (lowest_eq : controller.lowest = some lowest) :
    (controller.adjustWindow now base lowest).fault = none ∧
      (controller.adjustWindow now base lowest).state.Ordered := by
  constructor
  · unfold Controller.adjustWindow
    rw [ordered.violation_eq_none known lowest_eq, ite_self]
    split <;> rfl
  · obtain kept | ⟨measurement, adjusted⟩ :=
      controller.state_adjustWindow now base lowest
    · rwa [kept]
    · rw [adjusted]
      exact { ordered with
        lowest := notBelow_none _
        lowestCongested := notBelow_none _ }

theorem Ordered.sample
    (ordered : controller.Ordered)
    {base : Binary64}
    (known : controller.base = some base)
    (roundTrip : Binary64)
    (probe : Probe Binary64) :
    (controller.sample now base roundTrip probe).fault = none ∧
      (controller.sample now base roundTrip probe).state.Ordered := by
  have base_le := controller.le_compensated (ordered.base base known)
    roundTrip probe.extra
  exact (ordered.addSample known base_le probe.congested).adjustWindow known rfl

/-- An answer does not fail. -/
theorem Ordered.probeAnswered
    (ordered : controller.Ordered)
    (nowFinite : now.IsFinite) :
    (controller.probeAnswered now).fault = none ∧
      (controller.probeAnswered now).state.Ordered := by
  cases pending : controller.pending with
  | nil =>
      rw [probeAnswered_of_stray pending]
      exact ⟨rfl, ordered⟩
  | cons probe rest =>
      have measured := ordered.measured nowFinite pending
      rw [probeAnswered_of_pending pending]
      split
      · exact ⟨rfl, measured⟩
      · exact measured.sample rfl _ probe

theorem Ordered.perform
    (ordered : controller.Ordered)
    (nowFinite : now.IsFinite)
    (action : Action Binary64) :
    (controller.perform now action).fault = none ∧
      (controller.perform now action).state.Ordered := by
  cases action with
  | recordProgress total =>
      exact ⟨fault_recordProgress _ _ _, ordered.recordProgress total⟩
  | probeSent => exact ⟨rfl, ordered.probeSent nowFinite⟩
  | probeAnswered => exact ordered.probeAnswered nowFinite

end Steps

/-! ## Without checks -/

section WithChecks

variable {α : Type} (checks : Bool)

/-- The controller with checks of the order switched on or off. -/
def withChecks (controller : Controller α) : Controller α :=
  { controller with
    config := { controller.config with verifyInvariants := checks } }

/-- An outcome with checks switched on or off in its controller. -/
def Result.withChecks (result : Result α) : Result α :=
  result.within id (Controller.withChecks checks)

/-- Only the checks of the order are switched on or off, and all names stay. -/
def checking : Naming α where
  config := fun config => { config with verifyInvariants := checks }
  position := id
  reading := id

theorem renamed_checking (controller : Controller α) :
    controller.renamed (checking checks) = controller.withChecks checks := by
  have probe_eq : Probe.renamed (checking checks) = (id : Probe α → Probe α) :=
    rfl
  unfold renamed
  rw [probe_eq, List.map_id]
  rfl

theorem Result.renamed_checking (result : Result α) :
    result.renamed (checking checks) = result.withChecks checks := by
  unfold Result.renamed
  rw [funext (Controller.renamed_checking checks)]
  rfl

variable [Arithmetic α]

theorem steady_checking : (checking checks : Naming α).Steady where
  initialWindow := fun _ => rfl
  elapsed := fun _ _ => rfl
  less := fun _ _ => Iff.rfl

variable (controller : Controller α) (now : α)

theorem arrival_withChecks
    (base : α)
    (previous : Probe α)
    (waited : α)
    (probes : List (Probe α)) :
    (controller.withChecks checks).arrival base previous waited probes =
      controller.arrival base previous waited probes := by
  induction probes generalizing previous waited with
  | nil => rfl
  | cons probe rest inductionHypothesis =>
      have later := inductionHypothesis probe
        (waited + controller.interval base previous probe)
      unfold arrival
      exact congrArg (ite _ _) later

/-- Checks make no difference to what a controller can be asked for. -/
theorem readout_withChecks :
    (controller.withChecks checks).readout = controller.readout := by
  funext now
  unfold readout untilUncongested
  simp only [arrival_withChecks]
  rfl

theorem start_withChecks
    {options : Options α}
    {verifyByDefault : Bool}
    {controller : Controller α}
    (started : start options verifyByDefault now = .ok controller) :
    start { options with verifyInvariants := some checks } verifyByDefault now =
      .ok (controller.withChecks checks) := by
  simp only [start] at started ⊢
  split at started
  · next accepted =>
      injection started with controller_eq
      rw [if_pos accepted, ← controller_eq]
      rfl
  · contradiction

end WithChecks

section Histories

variable {controller : Controller Binary64} (checks : Bool)

/-- Checks make no difference to a sample of a controller whose round trips are in
order. -/
theorem Ordered.sample_checking
    (ordered : controller.Ordered)
    {now base : Binary64}
    (known : controller.base = some base)
    (roundTrip : Binary64)
    (probe : Probe Binary64) :
    (controller.renamed (checking checks)).sample now base roundTrip
        (probe.renamed (checking checks)) =
      (controller.sample now base roundTrip probe).renamed (checking checks) := by
  have base_le := controller.le_compensated (ordered.base base known) roundTrip
    probe.extra
  have sampled := ordered.addSample known base_le probe.congested
  exact sample_renamed controller now
    (.inr (sampled.violation_eq_none known rfl))

theorem Ordered.perform_withChecks
    (ordered : controller.Ordered)
    {now : Binary64}
    (nowFinite : now.IsFinite)
    (action : Action Binary64) :
    (controller.withChecks checks).perform now action =
      (controller.perform now action).withChecks checks := by
  have steady : (checking checks : Naming Binary64).Steady :=
    steady_checking checks
  rw [← renamed_checking, ← Result.renamed_checking]
  cases action with
  | recordProgress total =>
      apply recordProgress_renamed steady
      · rfl
      · rfl
  | probeSent =>
      apply probeSent_renamed steady
      rw [renamed_checking]
      rfl
  | probeAnswered =>
      apply probeAnswered_renamed steady
      intro probe rest pending
      have measured := ordered.measured nowFinite pending
      exact measured.sample_checking checks rfl _ probe

/-- Checks make no difference to any history. -/
theorem Ordered.outcomes
    (ordered : controller.Ordered)
    {history : List (Binary64 × Action Binary64)}
    (finiteReadings : ∀ step ∈ history, step.1.IsFinite) :
    (∀ outcome ∈ controller.outcomes history,
        outcome.fault = none ∧ outcome.state.Ordered) ∧
      (controller.withChecks checks).outcomes history =
        (controller.outcomes history).map (Result.withChecks checks) := by
  induction history generalizing controller with
  | nil => exact ⟨by simp [Controller.outcomes], rfl⟩
  | cons step rest inductionHypothesis =>
      have nowFinite := finiteReadings step List.mem_cons_self
      obtain ⟨faultless, performed⟩ := ordered.perform nowFinite step.2
      obtain ⟨later, laterSame⟩ := inductionHypothesis performed
        fun other member => finiteReadings other (List.mem_cons_of_mem _ member)
      constructor
      · intro outcome member
        obtain rfl | member := List.mem_cons.mp member
        · exact ⟨faultless, performed⟩
        · exact later outcome member
      · simp only [Controller.outcomes, List.map_cons,
          ordered.perform_withChecks checks nowFinite]
        exact congrArg _ laterSame

end Histories

/-- The checks never fail.  Take any controller that was started and any reports
at finite clock readings, which may run backwards.  Then no report fails, and
after each of them the known round trips are not below the wire latency.  A
controller that differs only in whether it checks this goes through the same
states, reports the same events, and answers the same whenever it is asked. -/
theorem checks_never_fail
    (options : Options Binary64)
    (verifyByDefault checks : Bool)
    (start : Binary64)
    (controller : Controller Binary64)
    (history : List (Binary64 × Action Binary64))
    (started : Controller.start options verifyByDefault start = .ok controller)
    (finiteReadings : ∀ step ∈ history, step.1.IsFinite) :
    (∀ outcome ∈ controller.outcomes history,
      outcome.fault = none ∧
        ∀ base, outcome.state.base = some base →
          (∀ lowest, outcome.state.lowest = some lowest → base ≤ lowest) ∧
          ∀ congested, outcome.state.lowestCongested = some congested →
            base ≤ congested) ∧
      ∃ other,
        Controller.start { options with verifyInvariants := some checks }
            verifyByDefault start = .ok other ∧
          other = controller.withChecks checks ∧
          other.outcomes history =
            (controller.outcomes history).map (Result.withChecks checks) ∧
          (other.outcomes history).map (fun outcome => outcome.state.readout) =
            (controller.outcomes history).map
              fun outcome => outcome.state.readout := by
  have ordered : controller.Ordered := by
    obtain ⟨config, rfl, _⟩ := start_ok started
    exact ordered_fresh config start
  obtain ⟨inOrder, same⟩ := ordered.outcomes checks finiteReadings
  refine ⟨?_, controller.withChecks checks, start_withChecks checks start started,
    rfl, same, ?_⟩
  · intro outcome member
    obtain ⟨faultless, stillOrdered⟩ := inOrder outcome member
    exact ⟨faultless, fun base known =>
      ⟨fun lowest => stillOrdered.lowest.le known,
        fun congested => stillOrdered.lowestCongested.le known⟩⟩
  · rw [same, List.map_map]
    apply List.map_congr_left
    intro outcome _
    exact readout_withChecks checks outcome.state

/-- Probes on a clock whose readings are further apart than any double.  The wire
latency is first infinite, and the last answer completes a measurement period. -/
def fullRange : List (Binary64 × Action Binary64) :=
  [(finite (-2 ^ (1023 : ℤ)), .probeSent),
    (finite (-2 ^ (1023 : ℤ)), .probeSent),
    (finite (2 ^ (1023 : ℤ)), .probeAnswered),
    (finite (2 ^ (1023 : ℤ)), .recordProgress (finite 30000)),
    (negativeZero, .probeAnswered),
    (negativeZero, .probeSent),
    (finite (61 / 2), .probeAnswered)]

theorem checks_never_fail_fullRange :
    (∀ step ∈ fullRange, step.1.IsFinite) ∧
      ∃ controller,
        Controller.start ⟨none, some true⟩ false (finite (-2 ^ (1023 : ℤ))) =
            .ok controller ∧
          (∀ outcome ∈ controller.outcomes fullRange, outcome.fault = none) ∧
          (controller.after fullRange).samples = 0 := by
  have finiteReadings : ∀ step ∈ fullRange, step.1.IsFinite := by decide
  have accepted : Window.Accepted (Window.initial : Binary64) := by
    decide +kernel
  have started : Controller.start ⟨none, some true⟩ false
      (finite (-2 ^ (1023 : ℤ))) = .ok _ := if_pos accepted
  obtain ⟨inOrder, _⟩ := checks_never_fail ⟨none, some true⟩ false false
    (finite (-2 ^ (1023 : ℤ))) _ fullRange started finiteReadings
  refine ⟨finiteReadings, _, started,
    fun outcome member => (inOrder outcome member).1, ?_⟩
  decide +kernel

end Controller
end Backpressure
