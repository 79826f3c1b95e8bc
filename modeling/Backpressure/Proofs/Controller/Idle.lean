import Backpressure.Proofs.Binary64.Monotone
import Backpressure.Proofs.Controller.Burst
import Backpressure.Proofs.Controller.Samples

/-!
# Idle periods

A report of progress resets the controller if the last activity is too long ago.
What counts as activity is a report that moves the position or finds a surplus,
and such a report counts at once.  So only a report of nothing new can find the
controller idle, and then nothing is left in the buffers: as long as the wire
latency is unknown, the surplus is zero.
-/

namespace Backpressure

open Binary64

/-- Readings that are not too far apart for a double are finite. -/
theorem FinitelySpaced.isFinite
    {readings : Set Binary64}
    (spaced : FinitelySpaced readings)
    {now : Binary64}
    (now_mem : now ∈ readings) :
    now.IsFinite := by
  have close := spaced now now_mem now now_mem
  cases now with
  | nan => contradiction
  | infinity negative => cases negative <;> contradiction
  | finite value => trivial
  | negativeZero => trivial

/-- Whether a notice is that of an idle reset. -/
def Notice.isReset {α : Type} : Notice α → Bool
  | .idleReset _ _ _ => true
  | .adjusted _ _ _ _ => false
  | .backlog _ => false
  | .strayAnswer => false

namespace Controller

/-! ## Activity -/

/-- Whether a report of a total is activity: it moves the position, or it finds a
surplus. -/
def Active (controller : Controller Binary64) (total : Binary64) : Prop :=
  controller.config.counting.position total ≠ controller.position ∨
    0 < controller.extra

instance (controller : Controller Binary64) (total : Binary64) :
    Decidable (controller.Active total) :=
  inferInstanceAs (Decidable (_ ∨ _))

/-- The reading at which a history was last active, or the given one. -/
def lastActive
    (controller : Controller Binary64)
    (start : Binary64) : List (Binary64 × Action Binary64) → Binary64
  | [] => start
  | (now, .recordProgress total) :: rest =>
    (controller.recordProgress now total).state.lastActive
      (if controller.Active total then now else start) rest
  | (now, .probeSent) :: rest =>
    (controller.probeSent now).state.lastActive start rest
  | (now, .probeAnswered) :: rest =>
    (controller.probeAnswered now).state.lastActive start rest

/-- The reading at which a position or a probe was last reported, or the given
one. -/
def lastReport {α : Type} (start : α) : List (α × Action α) → α
  | [] => start
  | (now, .recordProgress _) :: rest => lastReport now rest
  | (now, .probeSent) :: rest => lastReport now rest
  | (_, .probeAnswered) :: rest => lastReport start rest

theorem lastReport_mem
    {α : Type}
    (start : α)
    (history : List (α × Action α)) :
    lastReport start history ∈ start :: history.map Prod.fst := by
  induction history generalizing start with
  | nil => exact List.mem_singleton.mpr rfl
  | cons step rest inductionHypothesis =>
      obtain ⟨now, action⟩ := step
      rw [List.map_cons]
      cases action with
      | recordProgress total =>
          exact List.mem_cons_of_mem _ (inductionHypothesis now)
      | probeSent => exact List.mem_cons_of_mem _ (inductionHypothesis now)
      | probeAnswered =>
          have later := inductionHypothesis start
          rw [List.mem_cons] at later ⊢
          exact later.imp_right (List.mem_cons_of_mem _)

section Steps

variable {readings : Set Binary64} {controller : Controller Binary64}
variable {now : Binary64}

/-- A surplus that is not above zero is zero. -/
theorem Sound.extra_eq_zero
    (sound : controller.Sound readings)
    (none : ¬0 < controller.extra) :
    controller.extra = 0 := by
  obtain ⟨bytes, extra_eq, _⟩ := sound.extra
  rw [extra_eq, literal_zero, finite_lt_finite, not_lt] at none
  rw [extra_eq, literal_zero, le_antisymm none (Nat.cast_nonneg bytes)]

/-- Bytes are added exactly if the position moves. -/
theorem added_pos_iff
    (counting : controller.config.counting = .wrapping)
    (position : OnRing controller.position)
    (total : Binary64) :
    0 < controller.added total ↔
      controller.config.counting.position total ≠ controller.position := by
  have onRing : OnRing (controller.config.counting.position total) := by
    rw [counting]
    exact onRing_residue total
  obtain ⟨after, after_eq, after_lt⟩ := onRing
  obtain ⟨before, before_eq, before_lt⟩ := position
  unfold added
  rw [after_eq, before_eq, distance_finite counting after_lt before_lt,
    literal_zero, finite_lt_finite, Nat.cast_pos, ne_eq, finite.injEq,
    Nat.cast_inj]
  unfold Arithmetic.ringSize at *
  omega

/-- Noting activity sets its time exactly if there is some. -/
theorem noteActivity_of_onRing
    (counting : controller.config.counting = .wrapping)
    (position : OnRing controller.position)
    (total : Binary64) :
    controller.noteActivity now (controller.added total) =
      { controller with
        busyAt := if controller.Active total then now
          else controller.busyAt } := by
  have active_iff : 0 < controller.added total ∨ 0 < controller.extra ↔
      controller.Active total :=
    or_congr_left (added_pos_iff counting position total)
  unfold noteActivity
  by_cases active : controller.Active total
  · rw [if_pos (active_iff.mpr active), if_pos active]
  · rw [if_neg fun noted => active (active_iff.mp noted), if_neg active]

/-- A report of progress is remembered as activity exactly if it is some, even if it
resets the controller. -/
theorem busyAt_recordProgress
    (counting : controller.config.counting = .wrapping)
    (position : OnRing controller.position)
    (total : Binary64) :
    (controller.recordProgress now total).state.busyAt =
      if controller.Active total then now else controller.busyAt := by
  have noted_eq : controller.noteActivity now (controller.added total) = _ :=
    noteActivity_of_onRing counting position total
  obtain ⟨_, reset⟩ | ⟨_, kept⟩ := controller.recordProgress_cases now total
  · rw [reset, noted_eq]
    rfl
  · rw [kept, noted_eq]
    rfl

/-- A report of progress resets the controller if it is no activity and comes too
long after the last one.  Any other one reports nothing, as activity counts at once and a
reading is never far from itself. -/
theorem recordProgress_cases_of_onRing
    (counting : controller.config.counting = .wrapping)
    (position : OnRing controller.position)
    (near : ¬controller.idleTimeout < Time.elapsed now now)
    (total : Binary64) :
    (¬controller.Active total ∧
        controller.idleTimeout < Time.elapsed controller.busyAt now ∧
        let window := Arithmetic.smaller controller.config.initialWindow
          controller.window
        controller.recordProgress now total =
          .reporting
            [.idleReset (Time.elapsed controller.busyAt now) controller.window
              window]
            { controller with
              window
              base := none
              samples := 0
              adjustedAt := now
              lowest := none
              lowestCongested := none
              position := controller.config.counting.position total
              updatedAt := now }) ∨
      ((¬controller.Active total →
          ¬controller.idleTimeout < Time.elapsed controller.busyAt now) ∧
        controller.recordProgress now total =
          .done ({ controller with
            busyAt := if controller.Active total then now
              else controller.busyAt }.reported now
                (controller.config.counting.position total)
                (controller.added total))) := by
  have cases := controller.recordProgress_cases now total
  rw [noteActivity_of_onRing counting position total] at cases
  by_cases active : controller.Active total
  · rw [if_pos active] at cases ⊢
    obtain ⟨idle, _⟩ | ⟨_, kept⟩ := cases
    · exact absurd idle near
    · exact .inr ⟨fun quiet => absurd active quiet, kept⟩
  · rw [if_neg active] at cases ⊢
    obtain ⟨idle, reset⟩ | ⟨busy, kept⟩ := cases
    · exact .inl ⟨active, idle, reset⟩
    · exact .inr ⟨fun _ => busy, kept⟩

theorem Sound.not_idleTimeout_lt_elapsed_self
    (spaced : FinitelySpaced readings)
    (sound : controller.Sound readings)
    (now_mem : now ∈ readings) :
    ¬controller.idleTimeout < Time.elapsed now now := by
  rw [elapsed_self spaced now_mem]
  exact sound.not_idleTimeout_lt_zero spaced

/-- A window that is reset is not above the initial one. -/
theorem Sound.resetWindow_le (sound : controller.Sound readings) :
    Arithmetic.smaller controller.config.initialWindow controller.window ≤
      controller.config.initialWindow := by
  obtain ⟨initial, initial_eq, _⟩ := sound.initialWindow
  obtain ⟨window, window_eq, _⟩ := sound.window
  rw [window_eq, initial_eq, smaller_finite, finite_le_finite]
  exact min_le_left _ _

end Steps

/-! ## Histories -/

section Histories

variable {readings : Set Binary64} {controller : Controller Binary64}
variable {history : List (Binary64 × Action Binary64)}

/-- Whatever is reported, the position stays on the ring. -/
theorem onRing_position_perform
    (counting : controller.config.counting = .wrapping)
    (position : OnRing controller.position)
    (now : Binary64)
    (action : Action Binary64) :
    OnRing (controller.perform now action).state.position := by
  cases action with
  | recordProgress total =>
      change OnRing (controller.recordProgress now total).state.position
      rw [position_recordProgress, counting]
      exact onRing_residue total
  | probeSent => exact position
  | probeAnswered =>
      change OnRing (controller.probeAnswered now).state.position
      rwa [position_probeAnswered]

/-- A controller remembers when a history was last active. -/
theorem busyAt_after
    (counting : controller.config.counting = .wrapping)
    (position : OnRing controller.position)
    (history : List (Binary64 × Action Binary64)) :
    (controller.after history).busyAt =
      controller.lastActive controller.busyAt history := by
  induction history generalizing controller with
  | nil => rfl
  | cons step rest inductionHypothesis =>
      obtain ⟨now, action⟩ := step
      have performed := onRing_position_perform counting position now action
      have later := inductionHypothesis
        ((congrArg Config.counting (config_perform _ _ _)).trans counting) performed
      rw [after_cons, later]
      cases action with
      | recordProgress total =>
          change lastActive _ (controller.recordProgress now total).state.busyAt
            rest = _
          rw [busyAt_recordProgress counting position total]
          rfl
      | probeSent => rfl
      | probeAnswered =>
          change lastActive _ (controller.probeAnswered now).state.busyAt
            rest = _
          rw [busyAt_probeAnswered]
          rfl

/-- On a clock that does not run backwards, the last activity was not after the
last report. -/
theorem Sound.busyAt_le_lastReport
    (spaced : FinitelySpaced readings)
    (sound : controller.Sound readings)
    (readings_mem : ∀ step ∈ history, step.1 ∈ readings)
    {start : Binary64}
    (busy_le : controller.busyAt ≤ start)
    (nondecreasing : (start :: history.map Prod.fst).Pairwise (· ≤ ·)) :
    (controller.after history).busyAt ≤ lastReport start history := by
  induction history generalizing controller start with
  | nil => exact busy_le
  | cons step rest inductionHypothesis =>
      obtain ⟨now, action⟩ := step
      obtain ⟨now_mem, later_mem⟩ := List.forall_mem_cons.mp readings_mem
      have performed := (sound.perform spaced now_mem action).2
      have start_le : start ≤ now :=
        List.rel_of_pairwise_cons nondecreasing List.mem_cons_self
      rw [after_cons]
      cases action with
      | recordProgress total =>
          apply inductionHypothesis performed later_mem ?_ nondecreasing.of_cons
          change (controller.recordProgress now total).state.busyAt ≤ now
          rw [busyAt_recordProgress sound.counting sound.position total]
          split_ifs
          · exact Binary64.le_refl
              (ne_nan_of_le start_le).2
          · exact Binary64.le_trans busy_le start_le
      | probeSent =>
          apply inductionHypothesis performed later_mem ?_ nondecreasing.of_cons
          exact Binary64.le_trans busy_le start_le
      | probeAnswered =>
          apply inductionHypothesis performed later_mem
          · change (controller.probeAnswered now).state.busyAt ≤ start
            rwa [busyAt_probeAnswered]
          · exact nondecreasing.sublist
              ((List.sublist_cons_self _ _).cons_cons _)

/-- So the activity has paused at least as long as the reports. -/
theorem Sound.elapsed_lastReport_le
    (spaced : FinitelySpaced readings)
    (sound : controller.Sound readings)
    {start now : Binary64}
    (readings_mem : ∀ reading ∈ start :: history.map Prod.fst ++ [now],
      reading ∈ readings)
    (soundAfter : (controller.after history).Sound readings)
    (busy_le : controller.busyAt ≤ start)
    (nondecreasing :
      (start :: history.map Prod.fst ++ [now]).Pairwise (· ≤ ·)) :
    Time.elapsed (lastReport start history) now ≤
      Time.elapsed (controller.after history).busyAt now := by
  obtain ⟨orderedBefore, -, before_le⟩ := List.pairwise_append.mp nondecreasing
  obtain ⟨historyMem, nowMem⟩ := List.forall_mem_append.mp readings_mem
  have report_mem := lastReport_mem start history
  have now_mem : now ∈ [now] := List.mem_singleton.mpr rfl
  apply elapsed_anti
  · exact spaced.isFinite soundAfter.busyAt
  · exact spaced.isFinite (historyMem _ report_mem)
  · exact spaced.isFinite (nowMem now now_mem)
  · apply sound.busyAt_le_lastReport spaced _ busy_le orderedBefore
    intro step member
    exact historyMem _ (List.mem_cons_of_mem _ (List.mem_map_of_mem member))
  · exact before_le _ report_mem now now_mem

/-- While the wire latency is unknown there is no surplus. -/
def Drained (controller : Controller Binary64) : Prop :=
  controller.base = none → controller.extra = 0

theorem Drained.perform
    (spaced : FinitelySpaced readings)
    (sound : controller.Sound readings)
    {now : Binary64}
    (now_mem : now ∈ readings)
    (drained : controller.Drained)
    (action : Action Binary64) :
    (controller.perform now action).state.Drained := by
  intro unknown
  cases action with
  | recordProgress total =>
      change (controller.recordProgress now total).state.extra = 0
      change (controller.recordProgress now total).state.base = none at unknown
      obtain ⟨quiet, _, reset⟩ | ⟨_, kept⟩ :=
        recordProgress_cases_of_onRing sound.counting sound.position
          (sound.not_idleTimeout_lt_elapsed_self spaced now_mem) total
      · -- a reset leaves the surplus, but it finds none
        rw [reset]
        exact sound.extra_eq_zero fun surplus => quiet (.inr surplus)
      · rw [kept] at unknown ⊢
        have unknownBefore : controller.base = none := unknown
        change surplusAfter _ _ _ = 0
        simp only [surplusAfter, unknownBefore]
        exact drained unknownBefore
  | probeSent => exact drained unknown
  | probeAnswered =>
      change (controller.probeAnswered now).state.extra = 0
      change (controller.probeAnswered now).state.base = none at unknown
      rw [extra_probeAnswered]
      apply drained
      cases pending : controller.pending with
      | nil =>
          rw [probeAnswered_of_stray pending] at unknown
          exact unknown
      | cons probe rest =>
          rw [probeAnswered_of_pending pending] at unknown
          split at unknown
          · contradiction
          · obtain ⟨_, _, _, _, _, state_eq, _⟩ :=
              state_sample (controller.measured now probe rest) now
                (lowered controller.base (roundTrip probe now))
                (roundTrip probe now) probe
            rw [state_eq] at unknown
            contradiction

theorem Drained.after
    (spaced : FinitelySpaced readings)
    (sound : controller.Sound readings)
    (drained : controller.Drained)
    (readings_mem : ∀ step ∈ history, step.1 ∈ readings) :
    (controller.after history).Drained := by
  refine (sound.after_of_perform spaced ?_ drained readings_mem).2
  exact fun sound now_mem drained action =>
    drained.perform spaced sound now_mem action

end Histories

/-! ## Resets -/

/-- Probes never find a controller idle. -/
theorem isReset_probeSent
    {α : Type}
    [Arithmetic α]
    (controller : Controller α)
    (now : α) :
    ∀ notice ∈ (controller.probeSent now).events, notice.isReset = false := by
  intro notice member
  unfold probeSent at member
  simp only [Outcome.events_reporting] at member
  split_ifs at member
  · rw [List.mem_singleton.mp member]
    rfl
  · contradiction

/-- Neither do answers. -/
theorem isReset_probeAnswered
    {α : Type}
    [Arithmetic α]
    (controller : Controller α)
    (now : α) :
    ∀ notice ∈ (controller.probeAnswered now).events,
      notice.isReset = false := by
  intro notice member
  obtain rfl | ⟨_, _, _, _, rfl⟩ := mem_events_probeAnswered member
  · rfl
  · rfl

/-- On a clock whose readings are not too far apart, a controller that was started
is sound before and after any reports. -/
theorem sound_of_run
    {options : Options Binary64}
    {verifyByDefault : Bool}
    {start now : Binary64}
    {controller : Controller Binary64}
    {history : List (Binary64 × Action Binary64)}
    (started : Controller.start options verifyByDefault start = .ok controller)
    (spaced : FinitelySpaced
      {reading | reading ∈ start :: history.map Prod.fst ++ [now]}) :
    controller.Sound
        {reading | reading ∈ start :: history.map Prod.fst ++ [now]} ∧
      (∀ step ∈ history,
        step.1 ∈ {reading | reading ∈ start :: history.map Prod.fst ++ [now]}) ∧
      (controller.after history).Sound
        {reading | reading ∈ start :: history.map Prod.fst ++ [now]} := by
  have start_mem : start ∈
      {reading | reading ∈ start :: history.map Prod.fst ++ [now]} :=
    List.mem_cons_self
  have readings_mem : ∀ step ∈ history,
      step.1 ∈ {reading | reading ∈ start :: history.map Prod.fst ++ [now]} :=
    fun step member => List.mem_append_left _
      (List.mem_cons_of_mem _ (List.mem_map_of_mem member))
  have sound := sound_of_start start_mem started
  obtain ⟨config, rfl, _⟩ := start_ok started
  exact ⟨sound, readings_mem,
    (sound.after spaced (sampled_of_none rfl rfl rfl) readings_mem).1⟩

/-- In particular it is sound at the reading that follows them. -/
theorem sound_at_now
    {options : Options Binary64}
    {verifyByDefault : Bool}
    {start now : Binary64}
    {controller : Controller Binary64}
    {history : List (Binary64 × Action Binary64)}
    (started : Controller.start options verifyByDefault start = .ok controller)
    (spaced : FinitelySpaced
      {reading | reading ∈ start :: history.map Prod.fst ++ [now]}) :
    (controller.after history).Sound
        {reading | reading ∈ start :: history.map Prod.fst ++ [now]} ∧
      now ∈ {reading | reading ∈ start :: history.map Prod.fst ++ [now]} :=
  ⟨(sound_of_run started spaced).2.2, List.mem_append_right _ List.mem_cons_self⟩

/-- A pause is noticed by the next report of nothing new.  Take any controller
that was started and any reports on a clock that does not run backwards, with
readings of which no two are too far apart for a double.  If then no position and
no probe is reported for longer than the idle timeout, and the position that is
reported next has not moved and finds no surplus, the controller is reset and this
is reported once: the wire latency is forgotten with all samples, and the window
is at most the initial one.  A report that moves the position or finds a surplus
is itself the activity that ends the pause, and it resets nothing. -/
theorem idle_reset_of_quiet
    (options : Options Binary64)
    (verifyByDefault : Bool)
    (start now total : Binary64)
    (controller : Controller Binary64)
    (history : List (Binary64 × Action Binary64))
    (started : Controller.start options verifyByDefault start = .ok controller)
    (nondecreasing :
      (start :: history.map Prod.fst ++ [now]).Pairwise (· ≤ ·))
    (spaced : FinitelySpaced
      {reading | reading ∈ start :: history.map Prod.fst ++ [now]})
    (quiet : (controller.after history).idleTimeout <
      Time.elapsed (lastReport start history) now) :
    let before := controller.after history
    let outcome := before.recordProgress now total
    (¬before.Active total →
        (∃ idle, outcome.events =
          [.idleReset idle before.window outcome.state.window] ∧
            before.idleTimeout < idle) ∧
          outcome.state.base = none ∧
          outcome.state.window ≤ controller.config.initialWindow ∧
          outcome.state.samples = 0) ∧
      (before.Active total →
        outcome.events = [] ∧
          outcome.state.base = before.base ∧
          outcome.state.window = before.window ∧
          outcome.state.samples = before.samples) := by
  intro before outcome
  obtain ⟨startedSound, _, sound⟩ := sound_of_run started spaced
  have start_mem : start ∈
      {reading | reading ∈ start :: history.map Prod.fst ++ [now]} :=
    List.mem_cons_self
  have now_mem : now ∈
      {reading | reading ∈ start :: history.map Prod.fst ++ [now]} :=
    List.mem_append_right _ (List.mem_singleton.mpr rfl)
  have busy_le : controller.busyAt ≤ start := by
    obtain ⟨config, rfl, _⟩ := start_ok started
    apply Binary64.le_refl
    rintro rfl
    exact spaced.isFinite start_mem
  have idle : before.idleTimeout < Time.elapsed before.busyAt now :=
    Binary64.lt_of_lt_of_le quiet (startedSound.elapsed_lastReport_le spaced
      (fun _ member => member) sound busy_le nondecreasing)
  have fixed : before.config = controller.config :=
    config_after controller history
  have window_le : Arithmetic.smaller before.config.initialWindow
      before.window ≤ controller.config.initialWindow := by
    rw [← fixed]
    exact sound.resetWindow_le
  obtain ⟨still, _, reset⟩ | ⟨busy, kept⟩ :=
    recordProgress_cases_of_onRing sound.counting sound.position
      (sound.not_idleTimeout_lt_elapsed_self spaced now_mem) total
  · have outcome_eq : outcome = _ := reset
    clear_value outcome
    subst outcome_eq
    constructor
    · intro _
      exact ⟨⟨_, rfl, idle⟩, rfl, window_le, rfl⟩
    · intro active
      exact absurd active still
  · have outcome_eq : outcome = _ := kept
    clear_value outcome
    subst outcome_eq
    constructor
    · intro still
      exact absurd idle (busy still)
    · intro _
      exact ⟨rfl, rfl, rfl, rfl⟩

/-- A round trip, some bytes, their drain, and then nothing. -/
def pause : List (Binary64 × Action Binary64) :=
  [(0, .probeSent),
    (finite 20, .probeAnswered),
    (finite 20, .recordProgress (finite 20000)),
    (finite 30, .recordProgress (finite 40000)),
    (finite 200, .recordProgress (finite 40000))]

theorem finitelySpaced_pause : FinitelySpaced
    {reading | reading ∈ 0 :: pause.map Prod.fst ++ [finite 301]} := by
  have close : ∀ earlier ∈ 0 :: pause.map Prod.fst ++ [finite 301],
      ∀ later ∈ 0 :: pause.map Prod.fst ++ [finite 301],
        later - earlier < infinity false := by
    decide +kernel
  exact close

theorem idle_reset_of_quiet_afterPause :
    let before := byDefault.after pause
    (before.idleTimeout < Time.elapsed (lastReport 0 pause) (finite 301) ∧
        before.base = some (finite 20)) ∧
      (¬before.Active (finite 40000) ∧
        (before.recordProgress (finite 301) (finite 40000)).state.base = none) ∧
      before.Active (finite 45000) ∧
        (before.recordProgress (finite 301) (finite 45000)).events = [] := by
  intro before
  have nondecreasing :
      (0 :: pause.map Prod.fst ++ [finite 301]).Pairwise (· ≤ ·) := by
    decide +kernel
  have quiet : before.idleTimeout <
      Time.elapsed (lastReport 0 pause) (finite 301) := by
    decide +kernel
  have still : ¬before.Active (finite 40000) := by decide +kernel
  have active : before.Active (finite 45000) := by decide +kernel
  have reset := idle_reset_of_quiet ⟨none, none⟩ true 0 (finite 301)
    (finite 40000) byDefault pause start_byDefault nondecreasing
    finitelySpaced_pause quiet
  have kept := idle_reset_of_quiet ⟨none, none⟩ true 0 (finite 301)
    (finite 45000) byDefault pause start_byDefault nondecreasing
    finitelySpaced_pause quiet
  exact ⟨⟨quiet, by decide +kernel⟩, ⟨still, (reset.1 still).2.1⟩, active,
    (kept.2 active).1⟩

/-- Round trips on a clock whose readings get further apart than any double. -/
def farClock : List (Binary64 × Action Binary64) :=
  List.replicate 3 (finite (-2 ^ (1023 : ℤ)), .probeSent) ++
    List.replicate 3
      (finite (2 ^ (1019 : ℤ) - 2 ^ (1023 : ℤ)), .probeAnswered) ++
    List.replicate 3 (finite (2 ^ (1019 : ℤ) - 2 ^ (1023 : ℤ)), .probeSent) ++
    List.replicate 3
      (finite (2 ^ (1023 : ℤ) + 2 ^ (1022 : ℤ)), .probeAnswered)

/-- Neither condition can be left out.  Bytes that are sent after a pause of a
second keep the controller from being reset.  Where the readings are further apart
than any double, a quotient of infinities leaves no window to be closed down. -/
theorem no_idle_reset_of_sending :
    (byDefault.idleTimeout < Time.elapsed (lastReport 0 []) (finite 1000) ∧
        (byDefault.recordProgress (finite 1000) (finite 100)).events = []) ∧
      let controller := fresh ⟨(Window.initial : Binary64), true, .wrapping⟩
        (finite (-2 ^ (1023 : ℤ)))
      let before := controller.after farClock
      let now := finite (2 ^ (1023 : ℤ) + 2 ^ (1022 : ℤ))
      (farClock.map Prod.fst ++ [now]).Pairwise (· ≤ ·) ∧
        before.idleTimeout <
          Time.elapsed (lastReport (finite (-2 ^ (1023 : ℤ))) farClock) now ∧
        ¬before.Active 0 ∧
        ¬(before.recordProgress now 0).state.window ≤
          controller.config.initialWindow := by
  decide +kernel

/-- A reset is never too early, and it leaves no stale surplus.  Take any
controller that was started and any reports at readings of which no two are too far
apart for a double.  Whenever an idle reset is reported, it is by a report that does
not move the position, there is no surplus, and more than the idle timeout has
passed since the last report that moved the position or found a surplus; the reset
changes neither the pending probes nor the one that was answered last.  As long as
the wire latency is unknown there is no surplus, and the answer that measures it
anew finds none. -/
theorem idle_reset_never_early
    (options : Options Binary64)
    (verifyByDefault : Bool)
    (start now : Binary64)
    (controller : Controller Binary64)
    (history : List (Binary64 × Action Binary64))
    (action : Action Binary64)
    (started : Controller.start options verifyByDefault start = .ok controller)
    (spaced : FinitelySpaced
      {reading | reading ∈ start :: history.map Prod.fst ++ [now]}) :
    let before := controller.after history
    let outcome := before.perform now action
    (∀ idle previous window, .idleReset idle previous window ∈ outcome.events →
        (∃ total, action = .recordProgress total ∧
          before.config.counting.position total = before.position) ∧
        before.extra = 0 ∧
        idle = Time.elapsed (controller.lastActive start history) now ∧
        before.idleTimeout < idle ∧
        outcome.state.pending = before.pending ∧
        outcome.state.answered = before.answered) ∧
      (before.base = none →
        before.extra = 0 ∧ (before.probeAnswered now).state.extra = 0) := by
  intro before outcome
  obtain ⟨startedSound, readings_mem, sound⟩ := sound_of_run started spaced
  have now_mem : now ∈
      {reading | reading ∈ start :: history.map Prod.fst ++ [now]} :=
    List.mem_append_right _ (List.mem_singleton.mpr rfl)
  obtain ⟨config, rfl, _⟩ := start_ok started
  have busyAt_eq : before.busyAt = (fresh config start).lastActive start history :=
    busyAt_after startedSound.counting startedSound.position history
  have drained : before.Drained :=
    Drained.after spaced startedSound (fun _ => rfl) readings_mem
  constructor
  · intro idle previous window member
    cases action with
    | probeSent => exact nomatch isReset_probeSent _ _ _ member
    | probeAnswered => exact nomatch isReset_probeAnswered _ _ _ member
    | recordProgress total =>
        obtain ⟨still, late, reset⟩ | ⟨_, kept⟩ :=
          recordProgress_cases_of_onRing sound.counting sound.position
            (sound.not_idleTimeout_lt_elapsed_self spaced now_mem) total
        · have outcome_eq : outcome = _ := reset
          clear_value outcome
          subst outcome_eq
          obtain ⟨rfl, -, -⟩ : idle = Time.elapsed before.busyAt now ∧ _ ∧ _ := by
            simpa using member
          obtain ⟨unmoved, none⟩ := not_or.mp still
          refine ⟨⟨total, rfl, not_not.mp unmoved⟩, sound.extra_eq_zero none, ?_,
            late, rfl, rfl⟩
          rw [busyAt_eq]
        · have outcome_eq : outcome = _ := kept
          clear_value outcome
          subst outcome_eq
          contradiction
  · intro unknown
    refine ⟨drained unknown, ?_⟩
    rw [extra_probeAnswered]
    exact drained unknown

theorem idle_reset_never_early_afterPause :
    ∃ idle previous window,
      .idleReset idle previous window ∈
          ((byDefault.after pause).perform (finite 301)
            (.recordProgress (finite 40000))).events ∧
        (byDefault.after pause).extra = 0 ∧
        idle = Time.elapsed (byDefault.lastActive 0 pause) (finite 301) ∧
        (byDefault.after pause).idleTimeout < idle := by
  obtain ⟨never, _⟩ := idle_reset_never_early ⟨none, none⟩ true 0 (finite 301)
    byDefault pause (.recordProgress (finite 40000)) start_byDefault
    finitelySpaced_pause
  have reported : ((byDefault.after pause).perform (finite 301)
      (.recordProgress (finite 40000))).events.any Notice.isReset = true := by
    decide +kernel
  obtain ⟨notice, member, isReset⟩ := List.any_eq_true.mp reported
  cases notice with
  | idleReset idle previous window =>
      obtain ⟨_, extra_eq, idle_eq, late, _⟩ :=
        never idle previous window member
      exact ⟨idle, previous, window, member, extra_eq, idle_eq, late⟩
  | _ => contradiction

/-- Two round trips.  The first one takes longer than any double, so nothing is
known to drain, and after the second one the controller is found idle. -/
def endlessRoundTrip : List (Binary64 × Action Binary64) :=
  [(finite (-2 ^ (1023 : ℤ)), .probeSent),
    (finite (2 ^ (1023 : ℤ)), .probeAnswered),
    (finite (2 ^ (1023 : ℤ)), .recordProgress 0),
    (finite (2 ^ (1023 : ℤ)), .probeSent),
    (finite (2 ^ (1023 : ℤ)), .probeAnswered)]

/-- Where readings are further apart than any double, a quotient of infinities gets
into the surplus, and it stays there when the controller is reset. -/
theorem idle_reset_of_endlessRoundTrip :
    let controller := fresh ⟨(Window.initial : Binary64), true, .wrapping⟩
      (finite (-2 ^ (1023 : ℤ)))
    let before := controller.after endlessRoundTrip
    let now := finite (2 ^ (1023 : ℤ))
    let outcome := before.perform now (.recordProgress 0)
    (endlessRoundTrip.map Prod.fst ++ [now]).Pairwise (· ≤ ·) ∧
      outcome.events.any Notice.isReset = true ∧ before.extra = nan ∧
      outcome.state.base = none ∧ outcome.state.extra = nan := by
  decide +kernel

end Controller
end Backpressure
