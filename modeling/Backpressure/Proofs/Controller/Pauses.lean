import Backpressure.Proofs.Controller.Repeating

/-!
# Pauses and their resets

A pause begins with the last activity before it, and an idle reset does not end it: only
activity does.  So all resets of one pause tell the time since the same reading, and after
the first one a report of nothing new resets the controller once more as soon as the idle
timeout in force has passed since then, no matter when it was reset last.
-/

namespace Backpressure

open Binary64

namespace Controller

/-! ## Readings of activity -/

/-- The readings at which a history was active. -/
def activeReadings
    (controller : Controller Binary64) :
    List (Binary64 × Action Binary64) → List Binary64
  | [] => []
  | (now, .recordProgress total) :: rest =>
    let later := (controller.recordProgress now total).state.activeReadings rest
    if controller.Active total then now :: later else later
  | (now, .probeSent) :: rest => (controller.probeSent now).state.activeReadings rest
  | (now, .probeAnswered) :: rest =>
    (controller.probeAnswered now).state.activeReadings rest

theorem activeReadings_sublist
    (controller : Controller Binary64)
    (history : List (Binary64 × Action Binary64)) :
    (controller.activeReadings history).Sublist (history.map Prod.fst) := by
  induction history generalizing controller with
  | nil => exact List.Sublist.slnil
  | cons step rest inductionHypothesis =>
      obtain ⟨now, action⟩ := step
      cases action with
      | recordProgress total =>
          unfold activeReadings
          split_ifs
          · exact (inductionHypothesis _).cons_cons now
          · exact (inductionHypothesis _).cons now
      | probeSent => exact (inductionHypothesis _).cons now
      | probeAnswered => exact (inductionHypothesis _).cons now

/-- A history was last active at the last of these readings. -/
theorem lastActive_eq_getLastD
    (controller : Controller Binary64)
    (start : Binary64)
    (history : List (Binary64 × Action Binary64)) :
    controller.lastActive start history =
      (controller.activeReadings history).getLastD start := by
  induction history generalizing controller start with
  | nil => rfl
  | cons step rest inductionHypothesis =>
      obtain ⟨now, action⟩ := step
      cases action with
      | recordProgress total =>
          unfold lastActive activeReadings
          rw [inductionHypothesis]
          split_ifs
          · exact List.getLastD_cons.symm
          · rfl
      | probeSent => exact inductionHypothesis _ start
      | probeAnswered => exact inductionHypothesis _ start

theorem lastActive_mem
    (controller : Controller Binary64)
    (start : Binary64)
    (history : List (Binary64 × Action Binary64)) :
    controller.lastActive start history ∈ start :: history.map Prod.fst := by
  rw [lastActive_eq_getLastD]
  exact ((controller.activeReadings_sublist history).cons_cons start).subset
    List.getLastD_mem_cons

/-! ## One report -/

section Steps

variable {controller : Controller Binary64} {now : Binary64}

theorem Stocked.not_idleTimeout_lt_elapsed_self
    (stocked : controller.Stocked)
    (nowFinite : now.IsFinite) :
    ¬controller.idleTimeout < Time.elapsed now now := by
  rw [Time.elapsed_self_of_isFinite nowFinite]
  exact stocked.not_idleTimeout_lt_zero

/-- Whoever resets the controller has found nothing new for too long. -/
theorem Stocked.of_idleReset
    (stocked : controller.Stocked)
    (nowFinite : now.IsFinite)
    {action : Action Binary64}
    {idle previous window : Binary64}
    (reported :
      .idleReset idle previous window ∈ (controller.perform now action).events) :
    ∃ total, action = .recordProgress total ∧
      ¬controller.Active total ∧
      idle = Time.elapsed controller.busyAt now ∧
      controller.idleTimeout < idle := by
  cases action with
  | probeSent => exact nomatch isReset_probeSent _ _ _ reported
  | probeAnswered => exact nomatch isReset_probeAnswered _ _ _ reported
  | recordProgress total =>
      change _ ∈ (controller.recordProgress now total).events at reported
      obtain ⟨quiet, late, reset⟩ | ⟨_, kept⟩ :=
        recordProgress_cases_of_onRing stocked.counting stocked.position
          (stocked.not_idleTimeout_lt_elapsed_self nowFinite) total
      · rw [reset] at reported
        obtain ⟨rfl, -, -⟩ : idle = Time.elapsed controller.busyAt now ∧ _ ∧ _ := by
          simpa using reported
        exact ⟨total, rfl, quiet, rfl, late⟩
      · rw [kept] at reported
        exact absurd reported List.not_mem_nil

/-- A report of nothing new resets the controller exactly if the last activity is too long
ago, and otherwise it keeps the wire latency. -/
theorem Stocked.recordProgress_of_quiet
    (stocked : controller.Stocked)
    (nowFinite : now.IsFinite)
    {total : Binary64}
    (quiet : ¬controller.Active total) :
    ((controller.recordProgress now total).events.any Notice.isReset = true ↔
        controller.idleTimeout < Time.elapsed controller.busyAt now) ∧
      (controller.recordProgress now total).state.base =
        if controller.idleTimeout < Time.elapsed controller.busyAt now then none
        else controller.base := by
  obtain ⟨_, late, reset⟩ | ⟨busy, kept⟩ :=
    recordProgress_cases_of_onRing stocked.counting stocked.position
      (stocked.not_idleTimeout_lt_elapsed_self nowFinite) total
  · rw [reset, if_pos late]
    exact ⟨iff_of_true rfl late, rfl⟩
  · rw [kept, if_neg (busy quiet)]
    exact ⟨iff_of_false Bool.false_ne_true (busy quiet), rfl⟩

/-- A reset is no activity, so the pause that it ends up in goes on after it. -/
theorem Stocked.busyAt_after_idleReset
    (stocked : controller.Stocked)
    (nowFinite : now.IsFinite)
    {action : Action Binary64}
    {idle previous window : Binary64}
    (reported :
      .idleReset idle previous window ∈ (controller.perform now action).events)
    (history : List (Binary64 × Action Binary64)) :
    let reset := (controller.perform now action).state
    (reset.after history).busyAt =
      (reset.activeReadings history).getLastD controller.busyAt := by
  intro reset
  have resetStocked : reset.Stocked := stocked.perform nowFinite action
  have kept : reset.busyAt = controller.busyAt := by
    obtain ⟨total, rfl, quiet, _⟩ := stocked.of_idleReset nowFinite reported
    change (controller.recordProgress now total).state.busyAt = _
    rw [busyAt_recordProgress stocked.counting stocked.position, if_neg quiet]
  rw [busyAt_after resetStocked.counting resetStocked.position, lastActive_eq_getLastD, kept]

end Steps

/-! ## Two resets -/

/-- A controller that was started remembers when it was last active. -/
theorem busyAt_after_of_start
    {options : Options Binary64}
    {verifyByDefault : Bool}
    {start : Binary64}
    {controller : Controller Binary64}
    (started : Controller.start options verifyByDefault start = .ok controller)
    (history : List (Binary64 × Action Binary64)) :
    (controller.after history).busyAt = controller.lastActive start history := by
  have stocked := stocked_of_start started
  rw [busyAt_after stocked.counting stocked.position]
  obtain ⟨config, rfl, _⟩ := start_ok started
  rfl

/-- On a clock that does not run backwards, no more time has passed since a reading than since
the first one. -/
theorem elapsed_le_of_mem
    {earlier latest now : Binary64}
    {between : List Binary64}
    (nondecreasing : (earlier :: between ++ [now]).Pairwise (· ≤ ·))
    (finiteReadings : ∀ reading ∈ earlier :: between ++ [now], reading.IsFinite)
    (latest_mem : latest ∈ between) :
    Time.elapsed latest now ≤ Time.elapsed earlier now := by
  obtain ⟨ordered, -, now_ge⟩ := List.pairwise_append.mp nondecreasing
  obtain ⟨earlierFinite, restFinite⟩ := List.forall_mem_cons.mp finiteReadings
  obtain ⟨betweenFinite, nowFinite⟩ := List.forall_mem_append.mp restFinite
  exact elapsed_anti earlierFinite (betweenFinite latest latest_mem)
    (List.forall_mem_singleton.mp nowFinite)
    (List.rel_of_pairwise_cons ordered latest_mem)
    (now_ge latest (List.mem_cons_of_mem _ latest_mem) now List.mem_cons_self)

/-- Two resets belong to one pause, unless there was activity between them.  Take any
controller that was started and any reports at finite readings of a clock that does not run
backwards, one of which resets the controller, and let the pause have begun at the last
activity before it.

If there is activity after this reset, then any later reset comes more than the idle timeout
in force after it, and tells the time since the last activity.  If there is none, a later
reset tells the time since the pause began, which is no less than the first one told.  Then
a report of nothing new resets the controller again exactly if more than the idle timeout in
force has passed since the pause began, and so always while the wire latency is unknown.  A
wire latency that was measured after the first reset is forgotten in this case only. -/
theorem idle_resets_of_one_pause
    (options : Options Binary64)
    (verifyByDefault : Bool)
    (start earlier now total idle previous window : Binary64)
    (controller : Controller Binary64)
    (resetting : Action Binary64)
    (first between : List (Binary64 × Action Binary64))
    (started : Controller.start options verifyByDefault start = .ok controller)
    (nondecreasing :
      (start :: first.map Prod.fst ++ earlier :: between.map Prod.fst ++ [now]).Pairwise
        (· ≤ ·))
    (finiteReadings : ∀ reading ∈
      start :: first.map Prod.fst ++ earlier :: between.map Prod.fst ++ [now],
        reading.IsFinite)
    (reported : .idleReset idle previous window ∈
      ((controller.after first).perform earlier resetting).events) :
    let reset := ((controller.after first).perform earlier resetting).state
    let later := reset.after between
    let again := later.recordProgress now total
    let began := controller.lastActive start first
    let activity := reset.activeReadings between
    idle = Time.elapsed began earlier ∧
      (∀ action nextIdle nextPrevious nextWindow,
        .idleReset nextIdle nextPrevious nextWindow ∈ (later.perform now action).events →
          later.idleTimeout < nextIdle ∧
            match activity.getLast? with
            | none => nextIdle = Time.elapsed began now ∧ idle ≤ nextIdle
            | some latest =>
              nextIdle = Time.elapsed latest now ∧
                later.idleTimeout < Time.elapsed earlier now) ∧
      (activity = [] → ¬later.Active total →
        (again.events.any Notice.isReset = true ↔
            later.idleTimeout < Time.elapsed began now) ∧
          (later.base = none → again.events.any Notice.isReset = true) ∧
          again.state.base =
            if later.idleTimeout < Time.elapsed began now then none else later.base) := by
  intro reset later again began activity
  rw [List.append_assoc] at nondecreasing finiteReadings
  obtain ⟨-, orderedBetween, earlier_ge⟩ := List.pairwise_append.mp nondecreasing
  obtain ⟨firstFinite, betweenFinite⟩ := List.forall_mem_append.mp finiteReadings
  have earlierFinite : earlier.IsFinite := betweenFinite earlier List.mem_cons_self
  have now_mem : now ∈ between.map Prod.fst ++ [now] :=
    List.mem_append_right _ List.mem_cons_self
  have nowFinite : now.IsFinite := betweenFinite now (List.mem_cons_of_mem _ now_mem)
  have stocked : (controller.after first).Stocked :=
    (stocked_of_start started).after fun step member =>
      firstFinite _ (List.mem_cons_of_mem _ (List.mem_map_of_mem member))
  have laterStocked : later.Stocked :=
    (stocked.perform earlierFinite resetting).after fun step member =>
      betweenFinite _ (List.mem_cons_of_mem _
        (List.mem_append_left _ (List.mem_map_of_mem member)))
  have busyAt_eq : (controller.after first).busyAt = began :=
    busyAt_after_of_start started first
  have busyAt_later : later.busyAt = activity.getLastD began := by
    rw [← busyAt_eq]
    exact stocked.busyAt_after_idleReset earlierFinite reported between
  obtain ⟨_, _, _, idle_eq, late⟩ := stocked.of_idleReset earlierFinite reported
  rw [busyAt_eq] at idle_eq
  have idle_le : idle ≤ Time.elapsed began now := by
    have began_mem := controller.lastActive_mem start first
    rw [idle_eq]
    exact elapsed_mono (firstFinite began began_mem) earlierFinite nowFinite
      (earlier_ge began began_mem earlier List.mem_cons_self)
      (List.rel_of_pairwise_cons orderedBetween now_mem)
  refine ⟨idle_eq, ?_, ?_⟩
  · intro action nextIdle nextPrevious nextWindow reportedNext
    obtain ⟨_, _, _, next_eq, nextLate⟩ := laterStocked.of_idleReset nowFinite reportedNext
    rw [busyAt_later, List.getLastD_eq_getLast?] at next_eq
    refine ⟨nextLate, ?_⟩
    cases recent : activity.getLast? with
    | none =>
        rw [recent] at next_eq
        rw [next_eq]
        exact ⟨rfl, idle_le⟩
    | some latest =>
        rw [recent] at next_eq
        refine ⟨next_eq, Binary64.lt_of_lt_of_le nextLate ?_⟩
        rw [next_eq]
        exact elapsed_le_of_mem orderedBetween betweenFinite
          ((reset.activeReadings_sublist between).subset (List.mem_of_getLast? recent))
  · intro inactive quiet
    rw [inactive] at busyAt_later
    obtain ⟨reset_iff, base_eq⟩ := laterStocked.recordProgress_of_quiet nowFinite quiet
    rw [busyAt_later] at reset_iff base_eq
    refine ⟨reset_iff, ?_, base_eq⟩
    intro unknown
    apply reset_iff.mpr
    have floor_lt := stocked.floor_lt_of_idleTimeout_lt late
    unfold idleTimeout
    rw [unknown]
    exact Binary64.lt_of_lt_of_le floor_lt idle_le

/-- A probe that is sent at the reading of a reset, and its answer. -/
def measuredAnew : List (Binary64 × Action Binary64) :=
  [(finite 101, .probeSent), (finite 121, .probeAnswered)]

theorem idle_resets_of_one_pause_measuredAnew :
    let reset := byDefault.perform (finite 101) (.recordProgress 0)
    let later := reset.state.after measuredAnew
    let again := later.recordProgress (finite 121) 0
    (∃ idle previous window, .idleReset idle previous window ∈ reset.events ∧
        idle = Time.elapsed 0 (finite 101)) ∧
      (later.base = some (finite 20) ∧ ¬later.Active 0) ∧
      again.events.any Notice.isReset = true ∧ again.state.base = none := by
  intro reset later again
  have nondecreasing : (0 :: ([] : List (Binary64 × Action Binary64)).map Prod.fst ++
      finite 101 :: measuredAnew.map Prod.fst ++ [finite 121]).Pairwise (· ≤ ·) := by
    decide +kernel
  have finiteReadings : ∀ reading ∈ 0 :: ([] : List (Binary64 × Action Binary64)).map Prod.fst ++
      finite 101 :: measuredAnew.map Prod.fst ++ [finite 121], reading.IsFinite := by
    decide +kernel
  have isReset : reset.events.any Notice.isReset = true := by decide +kernel
  have inactive : ¬later.Active 0 := by decide +kernel
  have late : later.idleTimeout < Time.elapsed 0 (finite 121) := by decide +kernel
  obtain ⟨notice, reported, isReset⟩ := List.any_eq_true.mp isReset
  cases notice with
  | idleReset idle previous window =>
      obtain ⟨idle_eq, _, quiet_resets⟩ := idle_resets_of_one_pause ⟨none, none⟩ true 0
        (finite 101) (finite 121) 0 idle previous window byDefault (.recordProgress 0) []
        measuredAnew start_byDefault nondecreasing finiteReadings reported
      obtain ⟨reset_iff, _, base_eq⟩ := quiet_resets (by decide +kernel) inactive
      exact ⟨⟨idle, previous, window, reported, idle_eq⟩, ⟨by decide +kernel, inactive⟩,
        reset_iff.mpr late, base_eq.trans (if_pos late)⟩
  | _ => contradiction

/-- The reset does not begin a new pause.  Here nothing moves, and the idle timeout has not
passed since the reset, and yet the next report of the same total is a second one, and
forgets the wire latency that has just been measured. -/
theorem idle_reset_again_within_timeout :
    let reset := byDefault.recordProgress (finite 101) 0
    let later := reset.state.after measuredAnew
    let again := later.recordProgress (finite 121) 0
    Controller.start ⟨none, none⟩ true 0 = .ok byDefault ∧
      reset.events.any Notice.isReset = true ∧
      (again.events.any Notice.isReset = true ∧
        reset.state.activeReadings measuredAnew = [] ∧ ¬later.Active 0 ∧
        ¬later.idleTimeout < Time.elapsed (finite 101) (finite 121)) ∧
      later.base = some (finite 20) ∧ again.state.base = none := by
  refine ⟨start_byDefault, ?_⟩
  decide +kernel

end Controller
end Backpressure
