import Backpressure.Proofs.Controller.Compensation
import Backpressure.Proofs.Controller.Idle

/-!
# The ledger of samples

A controller keeps only a count and two minima of its samples.  Here a ledger keeps
all of them: every answer to a probe that was not sent before the last adjustment or
idle reset, with what was measured by it.  The ledger sees only what the controller
reports to its observer, and it explains every adjustment: three fresh answers lead
to one, its measurement is their minimum, and none of them is ever used again.
-/

namespace Backpressure

open Binary64

/-- Whether a notice is that of an adjustment. -/
def Notice.isAdjustment {α : Type} : Notice α → Bool
  | .adjusted _ _ _ _ => true
  | .idleReset _ _ _ => false
  | .backlog _ => false
  | .strayAnswer => false

/-! ## Minima -/

/-- The minimum of a list of numbers, which only an empty list lacks. -/
def IsLowest (values : List Binary64) : Option Binary64 → Prop
  | none => values = []
  | some low => low ∈ values ∧ ∀ value ∈ values, low ≤ value

/-- Lowering a minimum by a further number gives the minimum with that number. -/
theorem IsLowest.append
    {values : List Binary64}
    {known : Option Binary64}
    (isLowest : IsLowest values known)
    {value : Binary64}
    (number : value ≠ nan) :
    IsLowest (values ++ [value]) (some (Controller.lowered known value)) := by
  cases known with
  | none =>
      obtain rfl : values = [] := isLowest
      exact ⟨List.mem_singleton.mpr rfl,
        List.forall_mem_singleton.mpr (Binary64.le_refl number)⟩
  | some low =>
      obtain ⟨low_mem, low_le⟩ := isLowest
      have lowNumber : low ≠ nan := (ne_nan_of_le (low_le low low_mem)).1
      obtain ⟨lowered_eq, lowered_le⟩ | ⟨lowered_eq, lowered_le⟩ :=
        smaller_cases lowNumber number
      · rw [Controller.lowered, lowered_eq]
        exact ⟨List.mem_append_left _ low_mem, List.forall_mem_append.mpr
          ⟨low_le, List.forall_mem_singleton.mpr lowered_le⟩⟩
      · rw [Controller.lowered, lowered_eq]
        exact ⟨List.mem_append_right _ (List.mem_singleton.mpr rfl),
          List.forall_mem_append.mpr
            ⟨fun other member => Binary64.le_trans lowered_le
              (low_le other member),
            List.forall_mem_singleton.mpr (Binary64.le_refl number)⟩⟩

/-! ## Replies -/

/-- The answer to a probe, with what was known when it arrived. -/
structure Reply where
  /-- The number of reports before it. -/
  turn : ℕ
  /-- The probe that it answers. -/
  probe : Probe Binary64
  /-- The measured round trip. -/
  roundTrip : Binary64
  /-- The wire latency, with this round trip counted in. -/
  base : Binary64
  /-- The window in force. -/
  window : Binary64

namespace Reply

/-- The round trip without the delay of the surplus. -/
def compensated (reply : Reply) : Binary64 :=
  Controller.compensation reply.window reply.base reply.roundTrip
    reply.probe.extra

/-- Whether the window was full when the probe was sent. -/
def congested (reply : Reply) : Bool :=
  reply.probe.congested

/-- What counts is neither below the wire latency nor above the round trip. -/
structure Fair (reply : Reply) : Prop where
  /-- It is not below the wire latency. -/
  base_le : reply.base ≤ reply.compensated
  /-- It is not above the round trip. -/
  le_roundTrip : reply.compensated ≤ reply.roundTrip

theorem Fair.ne_nan {reply : Reply} (fair : reply.Fair) :
    reply.compensated ≠ nan :=
  (ne_nan_of_le fair.base_le).2

end Reply

/-- The reply that an answer to a probe enters. -/
def Controller.replyTo
    (controller : Controller Binary64)
    (turn : ℕ)
    (now : Binary64)
    (probe : Probe Binary64) : Reply where
  turn := turn
  probe := probe
  roundTrip := roundTrip probe now
  base := lowered controller.base (roundTrip probe now)
  window := controller.window

/-! ## Ledgers -/

/-- All fresh answers of a history. -/
structure Ledger where
  /-- The number of reports so far. -/
  turn : ℕ
  /-- When the window was last adjusted or reset. -/
  since : Binary64
  /-- The fresh answers since then. -/
  fresh : List Reply
  /-- Those that led to the adjustments, one after the other. -/
  used : List (List Reply)

namespace Ledger

/-- The ledger of a controller that has just been started. -/
def opened (start : Binary64) : Ledger :=
  ⟨0, start, [], []⟩

/-- The fresh answer that a report brings, if it brings one.  An answer belongs to
the oldest pending probe, and it is fresh if this is not older than the period. -/
def arrival
    (ledger : Ledger)
    (controller : Controller Binary64)
    (now : Binary64) : Controller.Action Binary64 → Option Reply
  | .recordProgress _ => none
  | .probeSent => none
  | .probeAnswered =>
    match controller.pending with
    | [] => none
    | probe :: _ =>
      if probe.sentAt < ledger.since then none
      else some (controller.replyTo ledger.turn now probe)

/-- The fresh answers of the period, the present one included. -/
def counted
    (ledger : Ledger)
    (controller : Controller Binary64)
    (now : Binary64)
    (action : Controller.Action Binary64) : List Reply :=
  ledger.fresh ++ (ledger.arrival controller now action).toList

/-- The ledger after one more report.  An adjustment uses up what was counted, and an
idle reset drops it. -/
def entered
    (ledger : Ledger)
    (controller : Controller Binary64)
    (now : Binary64)
    (action : Controller.Action Binary64) : Ledger :=
  let counted := ledger.counted controller now action
  let events := (controller.perform now action).events
  if events.any Notice.isAdjustment then
    ⟨ledger.turn + 1, now, [], ledger.used ++ [counted]⟩
  else if events.any Notice.isReset then ⟨ledger.turn + 1, now, [], ledger.used⟩
  else ⟨ledger.turn + 1, ledger.since, counted, ledger.used⟩

/-- The ledger after a history of reports. -/
def after
    (ledger : Ledger)
    (controller : Controller Binary64) :
    List (Binary64 × Controller.Action Binary64) → Ledger
  | [] => ledger
  | (now, action) :: rest =>
    (ledger.entered controller now action).after
      (controller.perform now action).state rest

theorem after_append
    (ledger : Ledger)
    (controller : Controller Binary64)
    (first second : List (Binary64 × Controller.Action Binary64)) :
    ledger.after controller (first ++ second) =
      (ledger.after controller first).after (controller.after first) second := by
  induction first generalizing ledger controller with
  | nil => rfl
  | cons step rest inductionHypothesis => exact inductionHypothesis _ _

/-! ## Every answer is used once at most -/

section Turns

variable (ledger : Ledger) (controller : Controller Binary64)
variable (now : Binary64) (action : Controller.Action Binary64)

@[simp] theorem turn_entered :
    (ledger.entered controller now action).turn = ledger.turn + 1 := by
  simp only [entered]
  split_ifs
  · rfl
  · rfl
  · rfl

theorem turn_arrival :
    ∀ reply ∈ (ledger.arrival controller now action).toList,
      reply.turn = ledger.turn := by
  intro reply member
  rw [Option.mem_toList] at member
  cases action with
  | recordProgress total => contradiction
  | probeSent => contradiction
  | probeAnswered =>
      simp only [arrival] at member
      split at member
      · contradiction
      · split_ifs at member
        rw [← Option.some.inj member]
        rfl

/-- What a ledger holds after a report are, in their order, answers that it held
before and the one that the report brings. -/
theorem entered_sublist :
    let entered := ledger.entered controller now action
    (entered.used.flatten ++ entered.fresh).Sublist
      (ledger.used.flatten ++ ledger.counted controller now action) := by
  intro entered
  simp only [entered, Ledger.entered]
  split_ifs
  · simp
  · simp
  · exact List.Sublist.refl _

end Turns

/-- All answers of a ledger are in turn, the used ones before the fresh ones. -/
structure InTurn (ledger : Ledger) : Prop where
  /-- No answer comes twice. -/
  sorted : (ledger.used.flatten ++ ledger.fresh).Pairwise
    fun first second => first.turn < second.turn
  /-- All of them are from earlier turns. -/
  earlier : ∀ reply ∈ ledger.used.flatten ++ ledger.fresh,
    reply.turn < ledger.turn

theorem inTurn_opened (start : Binary64) : (opened start).InTurn where
  sorted := List.Pairwise.nil
  earlier := fun reply member => by contradiction

section Histories

variable {ledger : Ledger} {controller : Controller Binary64}

theorem InTurn.entered
    (inTurn : ledger.InTurn)
    (controller : Controller Binary64)
    (now : Binary64)
    (action : Controller.Action Binary64) :
    (ledger.entered controller now action).InTurn := by
  have turns := ledger.turn_arrival controller now action
  have sublist := ledger.entered_sublist controller now action
  unfold counted at sublist
  rw [← List.append_assoc] at sublist
  constructor
  · apply List.Pairwise.sublist sublist
    rw [List.pairwise_append]
    refine ⟨inTurn.sorted, ?_, ?_⟩
    · cases ledger.arrival controller now action with
      | none => exact List.Pairwise.nil
      | some reply => exact List.pairwise_singleton _ _
    · intro early early_mem late late_mem
      rw [turns late late_mem]
      exact inTurn.earlier early early_mem
  · intro reply member
    rw [turn_entered]
    obtain early | late := List.mem_append.mp (sublist.subset member)
    · exact Nat.lt_succ_of_lt (inTurn.earlier reply early)
    · rw [turns reply late]
      exact Nat.lt_succ_self _

/-- Later on, a ledger uses no other answers than those that it holds now and those
of later turns. -/
theorem mem_used_after
    {history : List (Binary64 × Controller.Action Binary64)}
    {reply : Reply}
    (member : reply ∈ (ledger.after controller history).used.flatten) :
    reply ∈ ledger.used.flatten ++ ledger.fresh ∨
      ledger.turn ≤ reply.turn := by
  induction history generalizing ledger controller with
  | nil => exact .inl (List.mem_append_left _ member)
  | cons step rest inductionHypothesis =>
      obtain ⟨now, action⟩ := step
      obtain held | later := inductionHypothesis member
      · have sublist := ledger.entered_sublist controller now action
        unfold counted at sublist
        rw [← List.append_assoc] at sublist
        apply (List.mem_append.mp (sublist.subset held)).imp_right
        intro new
        exact (ledger.turn_arrival controller now action reply new).ge
      · rw [turn_entered] at later
        exact .inr (Nat.le_of_succ_le later)

/-- What is dropped is never used. -/
theorem InTurn.not_mem_used_after
    (inTurn : ledger.InTurn)
    {now : Binary64}
    {action : Controller.Action Binary64}
    {later : List (Binary64 × Controller.Action Binary64)}
    (dropped : ledger.entered controller now action =
      ⟨ledger.turn + 1, now, [], ledger.used⟩)
    {reply : Reply}
    (fresh : reply ∈ ledger.fresh) :
    reply ∉ ((ledger.entered controller now action).after
      (controller.perform now action).state later).used.flatten := by
  intro member
  have earlier := inTurn.earlier reply (List.mem_append_right _ fresh)
  obtain held | late := mem_used_after member
  · rw [dropped, List.append_nil] at held
    have sorted := (List.pairwise_append.mp inTurn.sorted).2.2
    exact lt_irrefl _ (sorted reply held reply fresh)
  · rw [turn_entered] at late
    omega

end Histories

end Ledger

namespace Controller

variable {controller : Controller Binary64} {now : Binary64}

/-! ## What a controller keeps of its samples -/

/-- The count and the minima of a controller are those of some replies. -/
structure Tallies (replies : List Reply) (controller : Controller Binary64) :
    Prop where
  /-- The samples are counted. -/
  samples : controller.samples = finite replies.length
  /-- The lowest round trip is the minimum of what counts. -/
  lowest : IsLowest (replies.map Reply.compensated) controller.lowest
  /-- So is the lowest one of the congested samples. -/
  lowestCongested :
    IsLowest ((replies.filter Reply.congested).map Reply.compensated)
      controller.lowestCongested

/-- A new period has no samples. -/
theorem tallies_nil
    (samples : controller.samples = 0)
    (lowest : controller.lowest = none)
    (lowestCongested : controller.lowestCongested = none) :
    controller.Tallies [] where
  samples := by rw [samples, literal_zero, List.length_nil, Nat.cast_zero]
  lowest := by
    rw [lowest]
    rfl
  lowestCongested := by
    rw [lowestCongested]
    rfl

/-- What does not touch the samples keeps the tallies. -/
theorem Tallies.of_eq
    {replies : List Reply}
    {other : Controller Binary64}
    (tallies : controller.Tallies replies)
    (samples : other.samples = controller.samples)
    (lowest : other.lowest = controller.lowest)
    (lowestCongested : other.lowestCongested = controller.lowestCongested) :
    other.Tallies replies where
  samples := samples.trans tallies.samples
  lowest := by
    rw [lowest]
    exact tallies.lowest
  lowestCongested := by
    rw [lowestCongested]
    exact tallies.lowestCongested

/-- A sample is one reply more. -/
theorem Tallies.addSample
    {replies : List Reply}
    (tallies : controller.Tallies replies)
    (few : replies.length < Window.samplesPerAdjustment)
    {reply : Reply}
    (fair : reply.Fair) :
    (controller.addSample reply.compensated reply.congested).Tallies
      (replies ++ [reply]) where
  samples := by
    unfold Window.samplesPerAdjustment at few
    change controller.samples + 1 = _
    rw [tallies.samples, literal_one, add_finite, ← Nat.cast_add_one,
      Binary64.round_natCast (by omega), List.length_append,
      List.length_singleton]
  lowest := by
    rw [List.map_append]
    exact tallies.lowest.append fair.ne_nan
  lowestCongested := by
    rw [List.filter_append, List.map_append]
    cases congested : reply.congested with
    | true =>
        rw [List.filter_singleton, congested]
        exact tallies.lowestCongested.append fair.ne_nan
    | false =>
        rw [List.filter_singleton, congested, cond_false, List.map_nil,
          List.append_nil]
        exact tallies.lowestCongested

/-- Enough samples for an adjustment are counted after the third reply. -/
theorem Tallies.samples_lt_iff
    {replies : List Reply}
    (tallies : controller.Tallies replies) :
    controller.samples < (Window.samplesPerAdjustment : Binary64) ↔
      replies.length < Window.samplesPerAdjustment := by
  rw [tallies.samples, natCast_eq (by norm_num [Window.samplesPerAdjustment]),
    finite_lt_finite, Nat.cast_lt]

/-! ## Answers -/

/-- The controller after a sample was counted, before it is judged. -/
def sampled
    (controller : Controller Binary64)
    (now : Binary64)
    (probe : Probe Binary64)
    (rest : List (Probe Binary64)) : Controller Binary64 :=
  let base := lowered controller.base (roundTrip probe now)
  (controller.measured now probe rest).addSample
    (controller.compensated base (roundTrip probe now) probe.extra)
    probe.congested

/-- An answer to a probe of an earlier period is no sample.  Another one is
counted, and it adjusts the window if there are enough. -/
theorem Ordered.probeAnswered_cases
    (ordered : controller.Ordered)
    (nowFinite : now.IsFinite)
    {probe : Probe Binary64}
    {rest : List (Probe Binary64)}
    (pending : controller.pending = probe :: rest) :
    let sampled := controller.sampled now probe rest
    (probe.sentAt < controller.adjustedAt ∧
        controller.probeAnswered now =
          .done (controller.measured now probe rest)) ∨
      (¬probe.sentAt < controller.adjustedAt ∧
        ((sampled.samples < (Window.samplesPerAdjustment : Binary64) ∧
            controller.probeAnswered now = .done sampled) ∨
          (¬sampled.samples < (Window.samplesPerAdjustment : Binary64) ∧
            ∃ lowest, sampled.lowest = some lowest ∧
              controller.probeAnswered now =
                sampled.adjust now
                  ⟨lowered controller.base (roundTrip probe now), lowest,
                    sampled.lowestCongested⟩))) := by
  intro sampled
  have measured := ordered.measured nowFinite pending
  have base_le := (controller.measured now probe rest).le_compensated
    (measured.base _ rfl) (roundTrip probe now) probe.extra
  have noViolation :=
    (measured.addSample rfl base_le probe.congested).violation_eq_none rfl rfl
  rw [probeAnswered_of_pending pending]
  by_cases stale : probe.sentAt < controller.adjustedAt
  · exact .inl ⟨stale, if_pos stale⟩
  refine .inr ⟨stale, ?_⟩
  rw [if_neg stale]
  unfold Controller.sample Controller.adjustWindow
  by_cases few : sampled.samples < (Window.samplesPerAdjustment : Binary64)
  · exact .inl ⟨few, if_pos few⟩
  · refine .inr ⟨few, _, rfl, (if_neg few).trans ?_⟩
    rw [noViolation, ite_self]
    rfl

/-- The reply to a pending probe counts what the controller counts, and this is
fair. -/
theorem fair_replyTo
    (ordered : controller.Ordered)
    (metered : controller.Metered)
    (nowFinite : now.IsFinite)
    {probe : Probe Binary64}
    (probe_mem : probe ∈ controller.pending)
    (turn : ℕ) :
    (controller.replyTo turn now probe).Fair ∧
      controller.compensated (lowered controller.base (roundTrip probe now))
          (roundTrip probe now) probe.extra =
        (controller.replyTo turn now probe).compensated := by
  obtain ⟨sentFinite, extraUnsigned⟩ := metered.pending probe probe_mem
  have latency := latency_roundTrip sentFinite nowFinite
  have baseLatency := latency_lowered metered.base latency
  obtain ⟨baseNumber, base_le, _⟩ := lowered_le ordered.base latency.ne_nan
  obtain ⟨compensated_eq, compensated_le⟩ :=
    compensated_eq baseLatency latency base_le metered.window.unsigned
      extraUnsigned
  have le_compensated :=
    controller.le_compensated baseNumber (roundTrip probe now) probe.extra
  rw [compensated_eq] at le_compensated
  exact ⟨⟨le_compensated, compensated_le⟩, compensated_eq⟩

end Controller

/-! ## What a ledger explains -/

namespace Ledger

/-- A ledger is right about a controller. -/
structure Describes (ledger : Ledger) (controller : Controller Binary64) :
    Prop where
  /-- The round trips of the controller are in order. -/
  ordered : controller.Ordered
  /-- What it measures has no negative sign. -/
  metered : controller.Metered
  /-- The period began when the ledger says. -/
  since : controller.adjustedAt = ledger.since
  /-- The controller keeps the count and the minima of the fresh answers. -/
  tallies : controller.Tallies ledger.fresh
  /-- They are too few for an adjustment. -/
  few : ledger.fresh.length < Window.samplesPerAdjustment
  /-- All of them are fair. -/
  fair : ∀ reply ∈ ledger.fresh, reply.Fair
  /-- Every adjustment used three. -/
  threes : ∀ group ∈ ledger.used, group.length = Window.samplesPerAdjustment
  /-- All answers are in turn. -/
  inTurn : ledger.InTurn

/-- What a ledger says of a report, and that it stays right. -/
structure Explains
    (ledger : Ledger)
    (controller : Controller Binary64)
    (now : Binary64)
    (action : Controller.Action Binary64) : Prop where
  /-- All counted answers are fair. -/
  fair : ∀ reply ∈ ledger.counted controller now action, reply.Fair
  /-- The third one adjusts the window, and nothing else does. -/
  adjusts_iff :
    (controller.perform now action).events.any Notice.isAdjustment = true ↔
      (ledger.counted controller now action).length =
        Window.samplesPerAdjustment
  /-- The measurement of an adjustment is that of the counted answers. -/
  measurement : ∀ adjustment previous window measurement,
    .adjusted adjustment previous window measurement ∈
        (controller.perform now action).events →
      (controller.perform now action).events =
          [.adjusted adjustment previous window measurement] ∧
        IsLowest ((ledger.counted controller now action).map Reply.compensated)
          (some measurement.lowest) ∧
        IsLowest
          (((ledger.counted controller now action).filter Reply.congested).map
            Reply.compensated)
          measurement.lowestCongested
  /-- An idle reset drops the fresh answers. -/
  dropped : (controller.perform now action).events.any Notice.isReset = true →
    ledger.entered controller now action =
      ⟨ledger.turn + 1, now, [], ledger.used⟩
  /-- The ledger is right about the controller after the report. -/
  describes : (ledger.entered controller now action).Describes
    (controller.perform now action).state

section Steps

variable {ledger : Ledger} {controller : Controller Binary64}
variable {now : Binary64} {action : Controller.Action Binary64}

theorem describes_opened
    {options : Options Binary64}
    {verifyByDefault : Bool}
    {start : Binary64}
    (started : Controller.start options verifyByDefault start = .ok controller) :
    (opened start).Describes controller := by
  have metered := Controller.metered_of_start started
  obtain ⟨config, rfl, _⟩ := Controller.start_ok started
  exact {
    ordered := Controller.ordered_fresh config start
    metered := metered
    since := rfl
    tallies := Controller.tallies_nil rfl rfl rfl
    few := by norm_num [opened, Window.samplesPerAdjustment]
    fair := fun reply member => by contradiction
    threes := fun group member => by contradiction
    inTurn := inTurn_opened start }

/-! ### One report -/

theorem entered_of_adjustment
    (adjustment : (controller.perform now action).events.any
      Notice.isAdjustment = true) :
    ledger.entered controller now action =
      ⟨ledger.turn + 1, now, [],
        ledger.used ++ [ledger.counted controller now action]⟩ :=
  if_pos adjustment

theorem entered_of_reset
    (noAdjustment : (controller.perform now action).events.any
      Notice.isAdjustment = false)
    (reset : (controller.perform now action).events.any
      Notice.isReset = true) :
    ledger.entered controller now action =
      ⟨ledger.turn + 1, now, [], ledger.used⟩ := by
  simp only [entered, noAdjustment, reset]
  rfl

theorem entered_of_silent
    (noAdjustment : (controller.perform now action).events.any
      Notice.isAdjustment = false)
    (noReset : (controller.perform now action).events.any
      Notice.isReset = false) :
    ledger.entered controller now action =
      ⟨ledger.turn + 1, ledger.since, ledger.counted controller now action,
        ledger.used⟩ := by
  simp only [entered, noAdjustment, noReset]
  rfl

/-- The ledger stays right if it does so about the samples. -/
theorem Describes.entered
    (describes : ledger.Describes controller)
    (nowFinite : now.IsFinite)
    {since : Binary64}
    {fresh : List Reply}
    {used : List (List Reply)}
    (entered_eq : ledger.entered controller now action =
      ⟨ledger.turn + 1, since, fresh, used⟩)
    (adjustedAt : (controller.perform now action).state.adjustedAt = since)
    (tallies : (controller.perform now action).state.Tallies fresh)
    (few : fresh.length < Window.samplesPerAdjustment)
    (fair : ∀ reply ∈ fresh, reply.Fair)
    (threes : ∀ group ∈ used, group.length = Window.samplesPerAdjustment) :
    (ledger.entered controller now action).Describes
      (controller.perform now action).state := by
  have inTurn := describes.inTurn.entered controller now action
  rw [entered_eq] at inTurn ⊢
  exact {
    ordered := (describes.ordered.perform nowFinite action).2
    metered := describes.metered.perform nowFinite action
    since := adjustedAt
    tallies := tallies
    few := few
    fair := fair
    threes := threes
    inTurn := inTurn }

/-- Without a fresh answer and an adjustment, the ledger only has to stay right. -/
theorem Describes.explains_of_nothing
    (describes : ledger.Describes controller)
    (nothing : ledger.arrival controller now action = none)
    (noAdjustment : (controller.perform now action).events.any
      Notice.isAdjustment = false)
    (still : (ledger.entered controller now action).Describes
      (controller.perform now action).state) :
    ledger.Explains controller now action := by
  have counted_eq : ledger.counted controller now action = ledger.fresh := by
    unfold counted
    rw [nothing, Option.toList_none, List.append_nil]
  constructor
  · rw [counted_eq]
    exact describes.fair
  · rw [noAdjustment, counted_eq]
    simpa using describes.few.ne
  · intro adjustment previous window measurement member
    rw [List.any_eq_false] at noAdjustment
    exact absurd rfl (noAdjustment _ member)
  · exact entered_of_reset noAdjustment
  · exact still

/-- A report that leaves the samples alone changes nothing in the ledger. -/
theorem Describes.explains_of_silent
    (describes : ledger.Describes controller)
    (nowFinite : now.IsFinite)
    (nothing : ledger.arrival controller now action = none)
    (noAdjustment : (controller.perform now action).events.any
      Notice.isAdjustment = false)
    (noReset : (controller.perform now action).events.any
      Notice.isReset = false)
    (adjustedAt : (controller.perform now action).state.adjustedAt =
      controller.adjustedAt)
    (tallies : (controller.perform now action).state.Tallies ledger.fresh) :
    ledger.Explains controller now action := by
  have entered_eq : ledger.entered controller now action = _ :=
    entered_of_silent noAdjustment noReset
  unfold counted at entered_eq
  rw [nothing, Option.toList_none, List.append_nil] at entered_eq
  apply describes.explains_of_nothing nothing noAdjustment
  exact describes.entered nowFinite entered_eq
    (adjustedAt.trans describes.since) tallies describes.few describes.fair
    describes.threes

theorem Describes.recordProgress
    (describes : ledger.Describes controller)
    (nowFinite : now.IsFinite)
    (total : Binary64) :
    ledger.Explains controller now (.recordProgress total) := by
  have noted_eq := controller.noteActivity_eq now (controller.added total)
  obtain ⟨_, reset⟩ | ⟨_, kept⟩ := controller.recordProgress_cases now total
  · have performed : controller.perform now (.recordProgress total) = _ := reset
    have noAdjustment : (controller.perform now
        (.recordProgress total)).events.any Notice.isAdjustment = false := by
      rw [performed]
      rfl
    have isReset : (controller.perform now
        (.recordProgress total)).events.any Notice.isReset = true := by
      rw [performed]
      rfl
    apply describes.explains_of_nothing rfl noAdjustment
    apply describes.entered nowFinite (entered_of_reset noAdjustment isReset)
    · rw [performed]
      rfl
    · rw [performed]
      exact Controller.tallies_nil rfl rfl rfl
    · norm_num [Window.samplesPerAdjustment]
    · intro reply member
      contradiction
    · exact describes.threes
  · have performed : controller.perform now (.recordProgress total) = _ := kept
    rw [noted_eq] at performed
    apply describes.explains_of_silent nowFinite rfl
    · rw [performed]
      rfl
    · rw [performed]
      rfl
    · rw [performed]
      rfl
    · rw [performed]
      exact describes.tallies.of_eq rfl rfl rfl

theorem Describes.probeSent
    (describes : ledger.Describes controller)
    (nowFinite : now.IsFinite) :
    ledger.Explains controller now .probeSent := by
  apply describes.explains_of_silent nowFinite rfl
  · change List.any (if _ then [Notice.backlog _] else []) _ = false
    split_ifs
    · rfl
    · rfl
  · rw [List.any_eq_false]
    intro notice member
    rw [Controller.isReset_probeSent controller now notice member]
    exact Bool.false_ne_true
  · rfl
  · exact describes.tallies.of_eq rfl rfl rfl

/-- A fresh answer is one sample more. -/
theorem Describes.sampled
    (describes : ledger.Describes controller)
    (nowFinite : now.IsFinite)
    {probe : Probe Binary64}
    {rest : List (Probe Binary64)}
    (pending : controller.pending = probe :: rest) :
    (controller.replyTo ledger.turn now probe).Fair ∧
      (controller.sampled now probe rest).Tallies
        (ledger.fresh ++ [controller.replyTo ledger.turn now probe]) := by
  have probe_mem : probe ∈ controller.pending := pending ▸ List.mem_cons_self
  obtain ⟨fair, compensated_eq⟩ := Controller.fair_replyTo describes.ordered
    describes.metered nowFinite probe_mem ledger.turn
  have measured : (controller.measured now probe rest).Tallies ledger.fresh :=
    describes.tallies.of_eq rfl rfl rfl
  refine ⟨fair, ?_⟩
  simp only [Controller.sampled, compensated_eq]
  exact measured.addSample describes.few fair

/-- The first two fresh answers are only counted. -/
theorem Describes.explains_of_few
    (describes : ledger.Describes controller)
    (nowFinite : now.IsFinite)
    {sampled : Controller Binary64}
    (performed : controller.perform now action = .done sampled)
    (adjustedAt : sampled.adjustedAt = controller.adjustedAt)
    (fair : ∀ reply ∈ ledger.counted controller now action, reply.Fair)
    (tallies : sampled.Tallies (ledger.counted controller now action))
    (few : (ledger.counted controller now action).length <
      Window.samplesPerAdjustment) :
    ledger.Explains controller now action := by
  have noAdjustment : (controller.perform now action).events.any
      Notice.isAdjustment = false := by
    rw [performed]
    rfl
  have noReset : (controller.perform now action).events.any
      Notice.isReset = false := by
    rw [performed]
    rfl
  constructor
  · exact fair
  · rw [noAdjustment]
    simpa using few.ne
  · intro adjustment previous window measurement member
    rw [performed] at member
    contradiction
  · exact entered_of_reset noAdjustment
  · apply describes.entered nowFinite (entered_of_silent noAdjustment noReset)
    · rw [performed]
      exact adjustedAt.trans describes.since
    · rw [performed]
      exact tallies
    · exact few
    · exact fair
    · exact describes.threes

/-- The third fresh answer adjusts the window to what was counted. -/
theorem Describes.explains_of_enough
    (describes : ledger.Describes controller)
    (nowFinite : now.IsFinite)
    {sampled : Controller Binary64}
    {base lowest : Binary64}
    (performed : controller.perform now action =
      sampled.adjust now ⟨base, lowest, sampled.lowestCongested⟩)
    (fair : ∀ reply ∈ ledger.counted controller now action, reply.Fair)
    (tallies : sampled.Tallies (ledger.counted controller now action))
    (lowest_eq : sampled.lowest = some lowest)
    (enough : (ledger.counted controller now action).length =
      Window.samplesPerAdjustment) :
    ledger.Explains controller now action := by
  have adjustment : (controller.perform now action).events.any
      Notice.isAdjustment = true := by
    rw [performed]
    rfl
  have isLowest := tallies.lowest
  rw [lowest_eq] at isLowest
  constructor
  · exact fair
  · exact iff_of_true adjustment enough
  · intro adjustment previous window measurement member
    rw [performed] at member ⊢
    cases List.mem_singleton.mp member
    exact ⟨rfl, isLowest, tallies.lowestCongested⟩
  · intro reset
    rw [performed] at reset
    contradiction
  · apply describes.entered nowFinite (entered_of_adjustment adjustment)
    · rw [performed]
      rfl
    · rw [performed]
      exact Controller.tallies_nil rfl rfl rfl
    · norm_num [Window.samplesPerAdjustment]
    · intro reply member
      contradiction
    · exact List.forall_mem_append.mpr
        ⟨describes.threes, List.forall_mem_singleton.mpr enough⟩

/-- A fresh answer adjusts the window if it is the third one. -/
theorem Describes.explains_of_fresh
    (describes : ledger.Describes controller)
    (nowFinite : now.IsFinite)
    {probe : Probe Binary64}
    {rest : List (Probe Binary64)}
    (pending : controller.pending = probe :: rest)
    (fresh : ¬probe.sentAt < ledger.since)
    (done : let sampled := controller.sampled now probe rest
      (sampled.samples < (Window.samplesPerAdjustment : Binary64) ∧
          controller.probeAnswered now = .done sampled) ∨
        (¬sampled.samples < (Window.samplesPerAdjustment : Binary64) ∧
          ∃ lowest, sampled.lowest = some lowest ∧
            controller.probeAnswered now =
              sampled.adjust now
                ⟨Controller.lowered controller.base
                  (Controller.roundTrip probe now), lowest,
                  sampled.lowestCongested⟩)) :
    ledger.Explains controller now .probeAnswered := by
  obtain ⟨replyFair, tallies⟩ := describes.sampled nowFinite pending
  have counted_eq : ledger.counted controller now .probeAnswered =
      ledger.fresh ++ [controller.replyTo ledger.turn now probe] := by
    simp only [counted, arrival, pending, if_neg fresh, Option.toList_some]
  have fair : ∀ reply ∈ ledger.counted controller now .probeAnswered,
      reply.Fair := by
    rw [counted_eq]
    exact List.forall_mem_append.mpr
      ⟨describes.fair, List.forall_mem_singleton.mpr replyFair⟩
  rw [← counted_eq] at tallies
  simp only [tallies.samples_lt_iff] at done
  obtain ⟨few, performed⟩ | ⟨enough, lowest, lowest_eq, performed⟩ := done
  · exact describes.explains_of_few nowFinite performed rfl fair tallies few
  · have third : (ledger.counted controller now .probeAnswered).length =
        Window.samplesPerAdjustment := by
      have few := describes.few
      rw [counted_eq, List.length_append, List.length_singleton] at enough ⊢
      omega
    exact describes.explains_of_enough nowFinite performed fair tallies
      lowest_eq third

theorem Describes.probeAnswered
    (describes : ledger.Describes controller)
    (nowFinite : now.IsFinite) :
    ledger.Explains controller now .probeAnswered := by
  cases pending : controller.pending with
  | nil =>
      have performed : controller.perform now .probeAnswered = _ :=
        Controller.probeAnswered_of_stray pending now
      apply describes.explains_of_silent nowFinite
      · simp only [arrival, pending]
      · rw [performed]
        rfl
      · rw [performed]
        rfl
      · rw [performed]
        rfl
      · rw [performed]
        exact describes.tallies
  | cons probe rest =>
      obtain ⟨stale, done⟩ | ⟨fresh, done⟩ :=
        describes.ordered.probeAnswered_cases nowFinite pending
      · rw [describes.since] at stale
        have performed : controller.perform now .probeAnswered = _ := done
        apply describes.explains_of_silent nowFinite
        · simp only [arrival, pending, if_pos stale]
        · rw [performed]
          rfl
        · rw [performed]
          rfl
        · rw [performed]
          rfl
        · rw [performed]
          exact describes.tallies.of_eq rfl rfl rfl
      · rw [describes.since] at fresh
        exact describes.explains_of_fresh nowFinite pending fresh done

/-- Every report is explained. -/
theorem Describes.explains
    (describes : ledger.Describes controller)
    (nowFinite : now.IsFinite)
    (action : Controller.Action Binary64) :
    ledger.Explains controller now action := by
  cases action with
  | recordProgress total => exact describes.recordProgress nowFinite total
  | probeSent => exact describes.probeSent nowFinite
  | probeAnswered => exact describes.probeAnswered nowFinite

/-- A ledger stays right over any history at finite readings. -/
theorem Describes.after
    (describes : ledger.Describes controller)
    {history : List (Binary64 × Controller.Action Binary64)}
    (finiteReadings : ∀ step ∈ history, step.1.IsFinite) :
    (ledger.after controller history).Describes (controller.after history) := by
  induction history generalizing ledger controller with
  | nil => exact describes
  | cons step rest inductionHypothesis =>
      obtain ⟨nowFinite, laterFinite⟩ := List.forall_mem_cons.mp finiteReadings
      exact inductionHypothesis (describes.explains nowFinite step.2).describes
        laterFinite

/-- The third fresh answer adjusts the window, and nothing else does. -/
theorem Describes.adjusts_iff_third
    (describes : ledger.Describes controller)
    (nowFinite : now.IsFinite)
    (action : Controller.Action Binary64) :
    (controller.perform now action).events.any Notice.isAdjustment = true ↔
      (ledger.arrival controller now action).isSome = true ∧
        ledger.fresh.length = 2 := by
  have few : ledger.fresh.length < 3 := describes.few
  rw [(describes.explains nowFinite action).adjusts_iff]
  simp only [counted, List.length_append, Window.samplesPerAdjustment]
  cases ledger.arrival controller now action with
  | none => simpa using few.ne
  | some reply => simp

/-- What was fresh before an idle reset is never used. -/
theorem Describes.not_mem_used_of_reset
    (describes : ledger.Describes controller)
    {earlier later : List (Binary64 × Controller.Action Binary64)}
    (finiteReadings : ∀ step ∈ earlier ++ (now, action) :: later,
      step.1.IsFinite)
    (reset : ((controller.after earlier).perform now action).events.any
      Notice.isReset = true)
    {reply : Reply}
    (fresh : reply ∈ (ledger.after controller earlier).fresh) :
    reply ∉ (ledger.after controller
      (earlier ++ (now, action) :: later)).used.flatten := by
  obtain ⟨earlierFinite, laterFinite⟩ :=
    List.forall_mem_append.mp finiteReadings
  have described := describes.after earlierFinite
  have explained := described.explains (laterFinite _ List.mem_cons_self) action
  rw [after_append]
  exact described.inTurn.not_mem_used_after (explained.dropped reset) fresh

end Steps

end Ledger

namespace Controller

/-- Every adjustment has its three samples.  Take any controller that was started and
any reports at finite readings, and call an answer fresh if its probe was not sent
before the last adjustment or idle reset, or the start.  A report adjusts the window
exactly if it is the third fresh answer since then.  The adjustment is reported once,
with the minimum of what the three answers count and of what those count that were
sent while congested.  An answer counts its round trip without the delay of its
surplus, under the wire latency and the window at its arrival, or that wire latency
where the difference is no number, and this is neither below that wire latency nor
above the round trip.  No answer is used for two adjustments, and answers that were
fresh before an idle reset are used for none. -/
theorem adjusts_to_three_fresh
    (options : Options Binary64)
    (verifyByDefault : Bool)
    (start now : Binary64)
    (controller : Controller Binary64)
    (history : List (Binary64 × Action Binary64))
    (action : Action Binary64)
    (started : Controller.start options verifyByDefault start = .ok controller)
    (finiteReadings : ∀ step ∈ history ++ [(now, action)], step.1.IsFinite) :
    let before := controller.after history
    let ledger := (Ledger.opened start).after controller history
    let counted := ledger.counted before now action
    let events := (before.perform now action).events
    (events.any Notice.isAdjustment = true ↔
        (ledger.arrival before now action).isSome = true ∧
          ledger.fresh.length = 2) ∧
      (∀ adjustment previous window measurement,
        .adjusted adjustment previous window measurement ∈ events →
          events = [.adjusted adjustment previous window measurement] ∧
            counted.length = 3 ∧
            IsLowest (counted.map Reply.compensated)
              (some measurement.lowest) ∧
            IsLowest ((counted.filter Reply.congested).map Reply.compensated)
              measurement.lowestCongested) ∧
      (∀ reply ∈ counted,
        reply.base ≤ reply.compensated ∧
          reply.compensated ≤ reply.roundTrip) ∧
      ledger.used.flatten.Pairwise
        (fun first second => first.turn < second.turn) ∧
      ∀ earlier reading report later,
        history = earlier ++ (reading, report) :: later →
          ((controller.after earlier).perform reading report).events.any
              Notice.isReset = true →
            ∀ reply ∈ ((Ledger.opened start).after controller earlier).fresh,
              reply ∉ ledger.used.flatten := by
  intro before ledger counted events
  obtain ⟨historyFinite, nowFinite⟩ := List.forall_mem_append.mp finiteReadings
  have opened := Ledger.describes_opened started
  have describes : ledger.Describes before := opened.after historyFinite
  have explains := describes.explains (nowFinite _ List.mem_cons_self) action
  refine ⟨?_, ?_, ?_, ?_, ?_⟩
  · exact describes.adjusts_iff_third (nowFinite _ List.mem_cons_self) action
  · intro adjustment previous window measurement member
    obtain ⟨events_eq, isLowest, isLowestCongested⟩ :=
      explains.measurement adjustment previous window measurement member
    have adjusts : events.any Notice.isAdjustment = true :=
      List.any_eq_true.mpr ⟨_, member, rfl⟩
    exact ⟨events_eq, explains.adjusts_iff.mp adjusts, isLowest,
      isLowestCongested⟩
  · intro reply member
    have fair := explains.fair reply member
    exact ⟨fair.base_le, fair.le_roundTrip⟩
  · exact (List.pairwise_append.mp describes.inTurn.sorted).1
  · rintro earlier reading report later rfl reset reply fresh
    exact opened.not_mem_used_of_reset historyFinite reset fresh

/-- Two samples that an idle reset drops, an answer that is older than the reset, a
sample of the wire latency, and a sample of a burst that fills the window. -/
def threeSamples : List (Binary64 × Action Binary64) :=
  [(0, .probeSent),
    (0, .probeSent),
    (0, .probeSent),
    (finite 20, .probeAnswered),
    (finite 21, .probeAnswered),
    (finite 200, .recordProgress 0),
    (finite 205, .probeAnswered),
    (finite 206, .probeSent),
    (finite 226, .probeAnswered),
    (finite 230, .recordProgress (finite 45000)),
    (finite 230, .probeSent),
    (finite 231, .recordProgress (finite 46000)),
    (finite 231, .probeSent),
    (finite 275, .probeAnswered)]

theorem adjusts_to_three_fresh_threeSamples :
    let before := byDefault.after threeSamples
    let ledger := (Ledger.opened 0).after byDefault threeSamples
    let counted := ledger.counted before (finite 290) .probeAnswered
    let dropped := ((Ledger.opened 0).after byDefault
      (threeSamples.take 5)).fresh
    (∃ adjustment previous window measurement,
      (before.perform (finite 290) .probeAnswered).events =
          [.adjusted adjustment previous window measurement] ∧
        counted.length = 3 ∧
        IsLowest (counted.map Reply.compensated) (some measurement.lowest) ∧
        IsLowest ((counted.filter Reply.congested).map Reply.compensated)
          measurement.lowestCongested) ∧
      dropped.length = 2 ∧ ∀ reply ∈ dropped, reply ∉ ledger.used.flatten := by
  intro before ledger counted dropped
  have finiteReadings :
      ∀ step ∈ threeSamples ++ [(finite 290, Action.probeAnswered)],
        step.1.IsFinite := by
    decide +kernel
  obtain ⟨adjusts_iff, measured, _, _, unused⟩ :=
    adjusts_to_three_fresh ⟨none, none⟩ true 0 (finite 290) byDefault
      threeSamples .probeAnswered start_byDefault finiteReadings
  refine ⟨?_, by decide +kernel, ?_⟩
  · have third : (ledger.arrival before (finite 290) .probeAnswered).isSome =
        true ∧ ledger.fresh.length = 2 := by
      decide +kernel
    obtain ⟨notice, member, isAdjustment⟩ :=
      List.any_eq_true.mp (adjusts_iff.mpr third)
    cases notice with
    | adjusted adjustment previous window measurement =>
        exact ⟨adjustment, previous, window, measurement,
          measured adjustment previous window measurement member⟩
    | _ => contradiction
  · have split : threeSamples = threeSamples.take 5 ++
        (finite 200, .recordProgress 0) :: threeSamples.drop 6 :=
      rfl
    have reset : ((byDefault.after (threeSamples.take 5)).perform (finite 200)
        (.recordProgress 0)).events.any Notice.isReset = true := by
      decide +kernel
    exact unused _ _ _ _ split reset

/-- Three round trips, and later three more behind a surplus, which are longer than
any double. -/
def farSamples : List (Binary64 × Action Binary64) :=
  List.replicate 3 (finite (-2 ^ (1023 : ℤ)), .probeSent) ++
    List.replicate 3
      (finite (2 ^ (1000 : ℤ) - 2 ^ (1023 : ℤ)), .probeAnswered) ++
    (finite (2 ^ (1000 : ℤ) - 2 ^ (1023 : ℤ)),
        .recordProgress (finite (2 ^ 31))) ::
      List.replicate 3
        (finite (2 ^ (1000 : ℤ) - 2 ^ (1023 : ℤ)), .probeSent) ++
    List.replicate 2
      (finite (2 ^ (1023 : ℤ) + 2 ^ (1022 : ℤ)), .probeAnswered)

/-- Where both a round trip and the delay of its surplus are longer than any double,
their difference is no number.  The wire latency is reported then, although more
than it is left of the round trip. -/
theorem adjusts_to_base_of_endless :
    let start := finite (-2 ^ (1023 : ℤ))
    let now := finite (2 ^ (1023 : ℤ) + 2 ^ (1022 : ℤ))
    let controller := fresh ⟨(Window.initial : Binary64), true, .wrapping⟩ start
    let before := controller.after farSamples
    let counted := ((Ledger.opened start).after controller farSamples).counted
      before now .probeAnswered
    (farSamples.map Prod.fst ++ [now]).Pairwise (· ≤ ·) ∧
      counted.length = 3 ∧
      (∀ reply ∈ counted,
        reply.probe.sentAt = finite (2 ^ (1000 : ℤ) - 2 ^ (1023 : ℤ)) ∧
          reply.probe.extra = finite (2 ^ 31 - 2 ^ 14) ∧
          reply.base = finite (2 ^ (1000 : ℤ)) ∧
          reply.window = finite (2 ^ 14) ∧
          reply.roundTrip -
            Buffering.delay reply.window reply.base reply.probe.extra = nan) ∧
      (2 : ℚ) ^ (1000 : ℤ) <
        2 ^ (1023 : ℤ) + 2 ^ (1022 : ℤ) -
            (2 ^ (1000 : ℤ) - 2 ^ (1023 : ℤ)) -
          ⌊((2 : ℚ) ^ 31 - 2 ^ 14) * 2 ^ (1000 : ℤ) / 2 ^ 14⌋ ∧
      ((before.perform now .probeAnswered).events.any fun
        | .adjusted _ _ _ measurement =>
          decide (measurement.lowest = finite (2 ^ (1000 : ℤ)))
        | _ => false) = true := by
  decide +kernel

end Controller
end Backpressure
