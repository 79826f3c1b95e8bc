import Backpressure.Proofs.Controller.Compensation
import Backpressure.Proofs.Controller.Estimates

/-!
# Repeated reports

What is left of the surplus is computed twice: the estimate tells it, and a report stores
it.  Both agree, as long as what they tell is a number, and a report finds nothing more to
do at the reading of the last one.  An idle reset does not break this, because nothing is
left of the surplus when it comes.
-/

namespace Backpressure

namespace Binary64

/-! ## Stored amounts -/

/-- A whole number, unless it is not a number at all. -/
def Tally (value : Binary64) : Prop :=
  value = nan ∨ Count value

/-- A whole number as it can be stored: it takes no rounding and is far from any infinity,
unless it is not a number at all. -/
def Stored (value : Binary64) : Prop :=
  value = nan ∨ WholeUpTo 100 value ∧ WholeDouble value

variable {value amount : Binary64}

theorem subtract_nan (value : Binary64) : value - nan = nan := by
  cases value <;> rfl

theorem nan_subtract (value : Binary64) : nan - value = nan := by
  cases value <;> rfl

theorem Unsigned.tally_floor (unsigned : Unsigned value) :
    Tally (Arithmetic.floor value) := by
  obtain rfl | rfl | ⟨number, rfl, nonneg⟩ := unsigned.cases
  · exact .inl rfl
  · exact .inr (.inl rfl)
  · obtain ⟨whole, whole_eq⟩ := Int.eq_ofNat_of_zero_le (Int.floor_nonneg.mpr nonneg)
    right
    right
    refine ⟨whole, ?_⟩
    rw [floor_finite, whole_eq, Int.cast_natCast]

theorem Stored.add_finite_zero (stored : Stored value) : value + finite 0 = value := by
  obtain rfl | ⟨_, number, rfl, kept⟩ := stored
  · rfl
  · rw [add_finite, add_zero, kept]

theorem Stored.subtract_finite_zero (stored : Stored value) : value - finite 0 = value := by
  obtain rfl | ⟨_, number, rfl, kept⟩ := stored
  · rfl
  · rw [subtract_finite, sub_zero, kept]

/-- To cut a difference off at zero is to compare first. -/
theorem Stored.larger_zero_subtract
    (stored : Stored value)
    (tally : Tally amount) :
    Arithmetic.larger 0 (value - amount) =
      if value ≤ amount then 0 else value - amount := by
  obtain rfl | ⟨whole, _⟩ := stored
  · rw [if_neg (not_nan_le amount), nan_subtract, larger_nan_right]
  obtain rfl | count := tally
  · have not_le : ¬value ≤ nan := fun ordered => (ne_nan_of_le ordered).2 rfl
    rw [if_neg not_le, subtract_nan, larger_nan_right]
  split_ifs with gone
  · by_cases same : amount ≤ value
    · obtain ⟨bytes, rfl, _⟩ := whole
      obtain rfl | ⟨number, rfl⟩ := count
      · contradiction
      · rw [finite_le_finite] at gone same
        rw [le_antisymm gone same, subtract_finite, sub_self, round_zero, literal_zero,
          larger_finite, max_self]
    · exact whole.larger_zero_subtract_of_not_le count same
  · obtain ⟨rest, rest_eq, _⟩ := whole.subtract (by norm_num) (by norm_num) count
      (whole.le_of_not_le count gone)
    rw [rest_eq, literal_zero, larger_finite, max_eq_right (Nat.cast_nonneg rest)]

/-- What is left after few bytes were added and others taken away can be stored. -/
theorem Stored.larger_zero_add_subtract
    (stored : Stored value)
    {added : Binary64}
    (addedOnRing : OnRing added)
    (tally : Tally amount) :
    Stored (Arithmetic.larger 0 (value + added - amount)) := by
  obtain rfl | ⟨whole, _⟩ := stored
  · left
    have sum_eq : nan + added = nan := by cases added <;> rfl
    rw [sum_eq, nan_subtract, larger_nan_right]
  obtain rfl | count := tally
  · left
    rw [subtract_nan, larger_nan_right]
  · have sum : WholeUpTo 100 (value + added) :=
      .add_small (by norm_num) (by norm_num) (by norm_num) whole addedOnRing.wholeUpTo
    right
    exact ⟨.larger_zero_subtract (by norm_num) (by norm_num) sum count,
      sum.wholeDouble_larger_zero_subtract (by norm_num) (by norm_num) count⟩

end Binary64

open Binary64

/-- No time passes between a finite reading and itself. -/
theorem Time.elapsed_self_of_isFinite
    {now : Binary64}
    (nowFinite : now.IsFinite) :
    Time.elapsed now now = finite 0 := by
  rw [elapsed_of_isFinite nowFinite nowFinite, if_pos le_rfl, sub_self, round_zero,
    floor_finite, Int.floor_zero, Int.cast_zero]

namespace Buffering

variable {window base span : Binary64}

theorem tally_drained
    (windowBounded : Window.Bounded window)
    (latency : Latency base)
    (spanUnsigned : Unsigned span) :
    Tally (drained window base span) :=
  ((spanUnsigned.multiply windowBounded.unsigned).divide latency.unsigned).tally_floor

theorem drained_nan (base span : Binary64) : drained nan base span = nan := by
  have product_eq : span * nan = nan := by cases span <;> rfl
  have quotient_eq : nan / base = nan := by cases base <;> rfl
  unfold drained
  rw [product_eq, quotient_eq]
  rfl

/-- Nothing drains in no time. -/
theorem drained_zero
    (windowRanged : Window.Ranged window)
    (latency : Latency base) :
    drained window base (finite 0) = finite 0 := by
  obtain ⟨bytes, rfl, _⟩ := windowRanged
  unfold drained
  rw [multiply_finite le_rfl (Nat.cast_nonneg bytes), zero_mul, round_zero]
  obtain rfl | ⟨time, rfl, time_pos, _⟩ := latency
  · rfl
  · rw [divide_finite le_rfl (by exact_mod_cast time_pos), zero_div, round_zero,
      floor_finite, Int.floor_zero, Int.cast_zero]

end Buffering

theorem Window.Bounded.smaller_smaller
    {first second : Binary64}
    (firstBounded : Bounded first)
    (secondBounded : Bounded second) :
    Arithmetic.smaller first (Arithmetic.smaller first second) =
      Arithmetic.smaller first second := by
  obtain rfl | ⟨one, rfl, _⟩ := firstBounded
  · rw [smaller_nan_left, smaller_nan_left]
  obtain rfl | ⟨two, rfl, _⟩ := secondBounded
  · rw [smaller_nan_right, smaller_nan_right]
  · rw [smaller_finite, smaller_finite, ← min_assoc, min_self]

namespace Controller

/-! ## What a controller stores -/

/-- What is measured has no negative sign, the position lies on the ring, and the surplus
can be stored. -/
structure Stocked (controller : Controller Binary64) : Prop
    extends Metered controller where
  /-- The position lies on the ring. -/
  position : OnRing controller.position
  /-- The surplus can be stored. -/
  stored : Stored controller.extra

theorem stocked_of_start
    {options : Options Binary64}
    {verifyByDefault : Bool}
    {start : Binary64}
    {controller : Controller Binary64}
    (started : Controller.start options verifyByDefault start = .ok controller) :
    controller.Stocked := by
  have metered := metered_of_start started
  obtain ⟨config, rfl, _⟩ := start_ok started
  have zeroOnRing : OnRing 0 :=
    ⟨0, by rw [literal_zero, Nat.cast_zero], by norm_num [Arithmetic.ringSize]⟩
  exact { metered with
    position := zeroOnRing
    stored := .inr ⟨.zero, .zero⟩ }

section Steps

variable {controller : Controller Binary64} {now : Binary64}

theorem Stocked.onRing_added (stocked : controller.Stocked) (total : Binary64) :
    OnRing (controller.added total) := by
  unfold added distance
  rw [stocked.counting]
  exact onRing_distance _ _

theorem Stocked.tally_drained
    (stocked : controller.Stocked)
    {base : Binary64}
    (known : controller.base = some base)
    (now : Binary64) :
    Tally (Buffering.drained controller.window base
      (Time.elapsed controller.updatedAt now)) :=
  Buffering.tally_drained stocked.window (stocked.base base known)
    (unsigned_larger_zero _)

theorem surplusAfter_of_unknown
    {α : Type}
    [Arithmetic α]
    (controller : Controller α)
    (unknown : controller.base = none)
    {now added : α} :
    controller.surplusAfter now added = controller.extra := by
  unfold surplusAfter
  rw [unknown]

theorem surplusAfter_of_known
    {α : Type}
    [Arithmetic α]
    (controller : Controller α)
    {base : α}
    (known : controller.base = some base)
    (now added : α) :
    controller.surplusAfter now added =
      Arithmetic.larger 0 (controller.extra + added -
        Buffering.drained controller.window base
          (Time.elapsed controller.updatedAt now)) := by
  unfold surplusAfter
  rw [known]

theorem Stocked.stored_surplusAfter
    (stocked : controller.Stocked)
    {added : Binary64}
    (addedOnRing : OnRing added) :
    Stored (controller.surplusAfter now added) := by
  cases known : controller.base with
  | none =>
      rw [controller.surplusAfter_of_unknown known]
      exact stocked.stored
  | some base =>
      rw [controller.surplusAfter_of_known known]
      exact stocked.stored.larger_zero_add_subtract addedOnRing
        (stocked.tally_drained known now)

/-- Noting activity does not change what a report stores. -/
theorem surplusAfter_noteActivity
    {α : Type}
    [Arithmetic α]
    (controller : Controller α)
    (now added : α) :
    (controller.noteActivity now added).surplusAfter now added =
      controller.surplusAfter now added := by
  rw [noteActivity_eq]
  rfl

theorem Stocked.recordProgress
    (stocked : controller.Stocked)
    (now total : Binary64) :
    (controller.recordProgress now total).state.Stocked where
  toMetered := stocked.toMetered.recordProgress total
  position := by
    rw [position_recordProgress, stocked.counting]
    exact onRing_residue total
  stored := by
    have noted_eq := controller.noteActivity_eq now (controller.added total)
    obtain ⟨_, reset⟩ | ⟨_, kept⟩ := controller.recordProgress_cases now total
    · rw [reset, noted_eq]
      exact stocked.stored
    · rw [kept]
      change Stored ((controller.noteActivity now _).surplusAfter now _)
      rw [surplusAfter_noteActivity]
      exact stocked.stored_surplusAfter (stocked.onRing_added total)

theorem Stocked.perform
    (stocked : controller.Stocked)
    (nowFinite : now.IsFinite)
    (action : Action Binary64) :
    (controller.perform now action).state.Stocked := by
  have metered := stocked.toMetered.perform nowFinite action
  cases action with
  | recordProgress total => exact stocked.recordProgress now total
  | probeSent => exact { metered with
      position := stocked.position
      stored := stocked.stored }
  | probeAnswered => exact { metered with
      position := by
        change OnRing (controller.probeAnswered now).state.position
        rw [position_probeAnswered]
        exact stocked.position
      stored := by
        change Stored (controller.probeAnswered now).state.extra
        rw [extra_probeAnswered]
        exact stocked.stored }

theorem Stocked.after
    (stocked : controller.Stocked)
    {history : List (Binary64 × Action Binary64)}
    (finiteReadings : ∀ step ∈ history, step.1.IsFinite) :
    (controller.after history).Stocked := by
  induction history generalizing controller with
  | nil => exact stocked
  | cons step rest inductionHypothesis =>
      obtain ⟨nowFinite, restFinite⟩ := List.forall_mem_cons.mp finiteReadings
      exact inductionHypothesis (stocked.perform nowFinite step.2) restFinite

/-! ## Reports without new bytes -/

/-- The position is its own residue. -/
theorem Stocked.counting_position (stocked : controller.Stocked) :
    controller.config.counting.position controller.position = controller.position := by
  obtain ⟨position, position_eq, position_lt⟩ := stocked.position
  have residue_eq := residue_natCast position_lt
  rw [natCast_eq (position_lt.trans (by norm_num [Arithmetic.ringSize]))] at residue_eq
  rw [stocked.counting, position_eq]
  exact residue_eq

/-- A total at the position adds no bytes. -/
theorem Stocked.added_eq_zero
    (stocked : controller.Stocked)
    {total : Binary64}
    (same : controller.config.counting.position total = controller.position) :
    controller.added total = finite 0 := by
  obtain ⟨position, position_eq, position_lt⟩ := stocked.position
  unfold added
  rw [same, position_eq, distance_finite stocked.counting position_lt position_lt,
    Nat.add_sub_cancel_left, Nat.mod_self, Nat.cast_zero]

/-- Without new bytes a report stores what the estimate tells. -/
theorem Stocked.surplusAfter_zero
    (stocked : controller.Stocked)
    {base : Binary64}
    (known : controller.base = some base)
    (now : Binary64) :
    controller.surplusAfter now (finite 0) = controller.extraNow now := by
  unfold extraNow
  rw [controller.surplusAfter_of_known known, known, stocked.stored.add_finite_zero,
    stocked.stored.larger_zero_subtract (stocked.tally_drained known now)]

/-- Of no surplus nothing is left, unless what drains is not a number. -/
theorem Stocked.extraNow_of_not_pos
    (stocked : controller.Stocked)
    (none : ¬0 < controller.extra)
    (now : Binary64) :
    controller.extraNow now = 0 ∨ controller.extraNow now = nan := by
  unfold extraNow
  cases known : controller.base with
  | none => exact .inl rfl
  | some base =>
      have tally := stocked.tally_drained known now
      dsimp only
      generalize Buffering.drained controller.window base
        (Time.elapsed controller.updatedAt now) = drained at tally ⊢
      obtain missing | ⟨_, bytes, extra_eq, _⟩ := stocked.stored
      · right
        rw [missing, if_neg (not_nan_le drained), nan_subtract]
      · obtain rfl | count := tally
        · right
          have not_le : ¬controller.extra ≤ nan :=
            fun ordered => (ne_nan_of_le ordered).2 rfl
          rw [if_neg not_le, subtract_nan]
        · left
          rw [extra_eq, literal_zero, finite_lt_finite, not_lt] at none
          rw [extra_eq, le_antisymm none (Nat.cast_nonneg bytes)]
          apply if_pos
          obtain rfl | ⟨number, rfl⟩ := count
          · rfl
          · rw [finite_le_finite]
            exact Nat.cast_nonneg number

/-- A pause that is too long is longer than the shortest idle timeout. -/
theorem Metered.floor_lt_of_idleTimeout_lt
    (metered : controller.Metered)
    {idle : Binary64}
    (late : controller.idleTimeout < idle) :
    (idleTimeoutFloor : Binary64) < idle := by
  have floor_eq : ((idleTimeoutFloor : ℕ) : Binary64) = finite idleTimeoutFloor :=
    natCast_eq (by norm_num [idleTimeoutFloor])
  unfold idleTimeout at late
  cases known : controller.base with
  | none =>
      rw [known] at late
      exact late
  | some base =>
      rw [known] at late
      dsimp only at late
      have double : Unsigned (base * 2) := by
        rw [literal_two]
        exact (metered.base base known).unsigned.multiply (unsigned_finite (by norm_num))
      rw [floor_eq] at late ⊢
      obtain double_eq | double_eq | ⟨number, double_eq, _⟩ := double.cases
      · rw [double_eq] at late
        cases idle <;> contradiction
      · rw [double_eq] at late
        cases idle <;> contradiction
      · rw [double_eq, larger_finite] at late
        apply Binary64.lt_of_le_of_lt _ late
        rw [finite_le_finite]
        exact le_max_right _ _

/-- No time is too long for a connection. -/
theorem Metered.not_idleTimeout_lt_zero (metered : controller.Metered) :
    ¬controller.idleTimeout < finite 0 := by
  intro late
  have below := metered.floor_lt_of_idleTimeout_lt late
  rw [natCast_eq (by norm_num [idleTimeoutFloor]), finite_lt_finite] at below
  exact below.not_ge (Nat.cast_nonneg _)

/-- A report finds a controller idle only without a surplus. -/
theorem Metered.not_extra_pos_of_idle
    (metered : controller.Metered)
    (nowFinite : now.IsFinite)
    {added : Binary64}
    (idle : controller.idleTimeout <
      Time.elapsed (controller.noteActivity now added).busyAt now) :
    ¬0 < controller.extra := by
  intro surplus
  unfold noteActivity at idle
  rw [if_pos (.inr surplus), Time.elapsed_self_of_isFinite nowFinite] at idle
  exact metered.not_idleTimeout_lt_zero idle

/-! ## Right after a report -/

/-- A further report of the same total at the same reading has nothing to do. -/
structure Refreshed (now : Binary64) (controller : Controller Binary64) : Prop where
  /-- The surplus is up to date. -/
  surplus : controller.surplusAfter now (finite 0) = controller.extra
  /-- So is the time of the last report. -/
  updatedAt : controller.updatedAt = now
  /-- A surplus counts as activity already. -/
  busyAt : 0 < controller.extra → controller.busyAt = now
  /-- The controller is not idle, or it has just been reset. -/
  idle : ¬controller.idleTimeout < Time.elapsed controller.busyAt now ∨
    controller =
      { controller with
        window := Arithmetic.smaller controller.config.initialWindow controller.window
        base := none
        samples := 0
        adjustedAt := now
        lowest := none
        lowestCongested := none }

/-- Noting a surplus that counts as activity already changes nothing. -/
theorem Refreshed.noteActivity (refreshed : controller.Refreshed now) :
    controller.noteActivity now (finite 0) = controller := by
  have nothing : ¬(0 : Binary64) < finite 0 := by
    rw [literal_zero, finite_lt_finite]
    exact lt_irrefl 0
  unfold Controller.noteActivity
  split_ifs with active
  · rw [← refreshed.busyAt (active.resolve_left nothing)]
  · rfl

theorem Refreshed.recordProgress
    (refreshed : controller.Refreshed now)
    (stocked : controller.Stocked)
    {total : Binary64}
    (same : controller.config.counting.position total = controller.position) :
    (controller.recordProgress now total).state = controller := by
  obtain ⟨idle, reset⟩ | ⟨_, kept⟩ := controller.recordProgress_cases now total
  · rw [stocked.added_eq_zero same, refreshed.noteActivity] at idle
    have settled := refreshed.idle.resolve_left (not_not_intro idle)
    rw [reset, stocked.added_eq_zero same, refreshed.noteActivity, same,
      ← refreshed.updatedAt]
    rw [← refreshed.updatedAt] at settled
    exact settled.symm
  · rw [kept, stocked.added_eq_zero same, refreshed.noteActivity, same]
    change { controller with
      extra := controller.surplusAfter now (finite 0), updatedAt := now } = controller
    rw [refreshed.surplus, ← refreshed.updatedAt]

/-- What a report stores is up to date at its reading. -/
theorem Stocked.surplusAfter_reported
    (stocked : controller.Stocked)
    (nowFinite : now.IsFinite)
    {added : Binary64}
    (addedOnRing : OnRing added)
    (position : Binary64) :
    (controller.reported now position added).surplusAfter now (finite 0) =
      controller.surplusAfter now added := by
  have stored : Stored (controller.surplusAfter now added) :=
    stocked.stored_surplusAfter addedOnRing
  cases known : controller.base with
  | none => exact (controller.reported now position added).surplusAfter_of_unknown known
  | some base =>
      have again_eq := (controller.reported now position added).surplusAfter_of_known
        known now (finite 0)
      simp only [reported] at again_eq
      rw [reported, again_eq, stored.add_finite_zero, Time.elapsed_self_of_isFinite nowFinite]
      obtain missing | ranged := stocked.window
      · -- Where the window is not a number, neither is what has just been stored.
        rw [controller.surplusAfter_of_known known, missing, Buffering.drained_nan,
          Buffering.drained_nan, subtract_nan,
          larger_nan_right, subtract_nan, larger_nan_right]
      · rw [Buffering.drained_zero ranged (stocked.base base known), stored.subtract_finite_zero]
        obtain missing | ⟨_, number, number_eq, _⟩ := stored
        · rw [missing, larger_nan_right]
        · rw [number_eq, literal_zero, larger_finite, max_eq_right (Nat.cast_nonneg _)]

/-- Without activity nothing is stored. -/
theorem Stocked.not_surplusAfter_pos
    (stocked : controller.Stocked)
    (now : Binary64)
    {added : Binary64}
    (addedOnRing : OnRing added)
    (inactive : ¬(0 < added ∨ 0 < controller.extra)) :
    ¬0 < controller.surplusAfter now added := by
  obtain ⟨noBytes, noSurplus⟩ := not_or.mp inactive
  obtain ⟨bytes, rfl, _⟩ := addedOnRing
  rw [literal_zero, finite_lt_finite, not_lt] at noBytes
  rw [le_antisymm noBytes (Nat.cast_nonneg bytes)]
  cases known : controller.base with
  | none =>
      rwa [controller.surplusAfter_of_unknown known]
  | some base =>
      rw [stocked.surplusAfter_zero known]
      obtain none | missing := stocked.extraNow_of_not_pos noSurplus now
      · rw [none, literal_zero, finite_lt_finite]
        exact lt_irrefl 0
      · rw [missing]
        exact Bool.false_ne_true

/-- After any report, a further one of the same total has nothing to do. -/
theorem Stocked.refreshed_recordProgress
    (stocked : controller.Stocked)
    (nowFinite : now.IsFinite)
    (total : Binary64) :
    (controller.recordProgress now total).state.Refreshed now := by
  have noted_eq := controller.noteActivity_eq now (controller.added total)
  have addedOnRing := stocked.onRing_added total
  have busyAt_eq (active : 0 < controller.added total ∨ 0 < controller.extra) :
      (controller.noteActivity now (controller.added total)).busyAt = now := by
    unfold Controller.noteActivity
    rw [if_pos active]
  obtain ⟨_, reset⟩ | ⟨busy, kept⟩ := controller.recordProgress_cases now total
  · rw [reset]
    refine ⟨?_, rfl, ?_, .inr ?_⟩
    · rw [noted_eq]
      rfl
    · intro surplus
      rw [noted_eq] at surplus
      exact busyAt_eq (.inr surplus)
    · rw [noted_eq]
      simp only [Outcome.state_reporting]
      rw [stocked.initialWindow.smaller_smaller stocked.window]
  · rw [kept]
    have surplus_eq := stocked.surplusAfter_reported nowFinite addedOnRing
      (controller.config.counting.position total)
    refine ⟨?_, rfl, ?_, .inl ?_⟩
    · rw [noted_eq]
      exact surplus_eq
    · intro surplus
      apply busyAt_eq
      by_contra inactive
      have none := stocked.not_surplusAfter_pos now addedOnRing inactive
      rw [← surplusAfter_noteActivity] at none
      exact none surplus
    · rw [noted_eq] at busy ⊢
      exact busy

/-- A report without new bytes stores what the estimate tells, and does not change what it
tells, not even when it forgets the wire latency: nothing is left of the surplus then. -/
theorem Stocked.extraNow_refreshed
    (stocked : controller.Stocked)
    (nowFinite : now.IsFinite)
    {total : Binary64}
    (same : controller.config.counting.position total = controller.position) :
    let refreshed := (controller.recordProgress now total).state
    (controller.extraNow now ≠ nan →
        refreshed.extraNow now = controller.extraNow now) ∧
      ∀ base, refreshed.base = some base →
        refreshed.extra = controller.extraNow now ∧
          refreshed.extraNow now = controller.extraNow now := by
  intro refreshed
  have refreshedStocked : refreshed.Stocked := stocked.recordProgress now total
  have upToDate : refreshed.Refreshed now :=
    stocked.refreshed_recordProgress nowFinite total
  have noted_eq := controller.noteActivity_eq now (controller.added total)
  obtain ⟨idle, reset⟩ | ⟨_, kept⟩ := controller.recordProgress_cases now total
  · have forgotten : refreshed.base = none := by
      change (controller.recordProgress now total).state.base = none
      rw [reset]
      rfl
    have nothing : refreshed.extraNow now = 0 := by
      unfold extraNow
      rw [forgotten]
    constructor
    · intro number
      have noSurplus := stocked.not_extra_pos_of_idle nowFinite idle
      rw [nothing, (stocked.extraNow_of_not_pos noSurplus now).resolve_right number]
    · intro base known
      rw [forgotten] at known
      contradiction
  · have stored_eq : refreshed.extra = controller.surplusAfter now (finite 0) := by
      change (controller.recordProgress now total).state.extra = _
      rw [kept, stocked.added_eq_zero same, ← surplusAfter_noteActivity]
      rfl
    have base_eq : refreshed.base = controller.base := by
      change (controller.recordProgress now total).state.base = _
      rw [kept, noted_eq]
      rfl
    have agree (base : Binary64) (known : refreshed.base = some base) :
        refreshed.extra = controller.extraNow now ∧
          refreshed.extraNow now = controller.extraNow now := by
      have stored_extraNow : refreshed.extra = controller.extraNow now := by
        rw [stored_eq]
        exact stocked.surplusAfter_zero (base_eq ▸ known) now
      refine ⟨stored_extraNow, ?_⟩
      rw [← stored_extraNow, ← refreshedStocked.surplusAfter_zero known,
        upToDate.surplus]
    refine ⟨fun _ => ?_, agree⟩
    cases known : refreshed.base with
    | some base => exact (agree base known).2
    | none =>
        unfold extraNow
        rw [known, ← base_eq, known]

end Steps

/-! ## Any history -/

/-- A repeated report is harmless.  Take any controller that was started, any reports of
any totals at finite readings, and one more finite reading.  A report of the position at
that reading does not change how much of the surplus is estimated to be left then, even if
it resets the controller; only an estimate that is not a number can be lost, and there is
none if no two readings are too far apart for a double.  If the wire latency is known
after the report, then the stored surplus is just the estimate.  And once any total has
been reported, a second report of it at the same reading changes nothing at all. -/
theorem report_again_harmless
    (options : Options Binary64)
    (verifyByDefault : Bool)
    (start now total : Binary64)
    (controller : Controller Binary64)
    (history : List (Binary64 × Action Binary64))
    (started : Controller.start options verifyByDefault start = .ok controller)
    (finiteReadings : ∀ step ∈ history, step.1.IsFinite)
    (nowFinite : now.IsFinite) :
    let before := controller.after history
    let refreshed := (before.recordProgress now before.position).state
    let reported := (before.recordProgress now total).state
    (before.extraNow now ≠ nan →
        refreshed.extraNow now = before.extraNow now) ∧
      (FinitelySpaced {reading | reading ∈ start :: history.map Prod.fst ++ [now]} →
        before.extraNow now ≠ nan) ∧
      (∀ base, refreshed.base = some base →
        refreshed.extra = before.extraNow now ∧
          refreshed.extraNow now = before.extraNow now) ∧
      (reported.recordProgress now total).state = reported := by
  intro before refreshed reported
  have stocked : before.Stocked := (stocked_of_start started).after finiteReadings
  have kept_of_number := stocked.extraNow_refreshed nowFinite stocked.counting_position
  refine ⟨kept_of_number.1, ?_, kept_of_number.2, ?_⟩
  · intro spaced
    obtain ⟨sound, now_mem⟩ := sound_at_now started spaced
    exact (sound.extraNow spaced now_mem).count.ne_nan
  · have reportedStocked : reported.Stocked := stocked.recordProgress now total
    apply (stocked.refreshed_recordProgress nowFinite total).recordProgress reportedStocked
    have config_eq : reported.config = before.config :=
      before.config_recordProgress now total
    rw [config_eq]
    exact (before.position_recordProgress now total).symm

/-- While a surplus drains, a report leaves the estimate alone and a second one changes
nothing.  After a long pause the report resets the controller, and even so the estimate
stays. -/
theorem report_again_harmless_afterPause :
    let filled := byDefault.after (pause.take 4)
    let refreshed := (filled.recordProgress (finite 40) filled.position).state
    let burst := (filled.recordProgress (finite 40) (finite 60000)).state
    let drained := byDefault.after pause
    let reset := (drained.recordProgress (finite 301) drained.position).state
    ((∀ step ∈ pause, step.1.IsFinite) ∧
        filled.extraNow (finite 40) = finite 7232 ∧
        refreshed.base = some (finite 20)) ∧
      (refreshed.extra = filled.extraNow (finite 40) ∧
        refreshed.extraNow (finite 40) = filled.extraNow (finite 40)) ∧
      (burst.recordProgress (finite 40) (finite 60000)).state = burst ∧
      reset.base = none ∧
      reset.extraNow (finite 301) = drained.extraNow (finite 301) := by
  have finiteReadings : ∀ step ∈ pause, step.1.IsFinite := by decide +kernel
  obtain ⟨_, _, stored, again⟩ := report_again_harmless ⟨none, none⟩ true 0 (finite 40)
    (finite 60000) byDefault (pause.take 4) start_byDefault
    (fun step member => finiteReadings step (List.mem_of_mem_take member)) trivial
  obtain ⟨kept, spaced_number, _⟩ := report_again_harmless ⟨none, none⟩ true 0
    (finite 301) 0 byDefault pause start_byDefault finiteReadings trivial
  exact ⟨⟨finiteReadings, by decide +kernel, by decide +kernel⟩,
    stored (finite 20) (by decide +kernel), again, by decide +kernel,
    kept (spaced_number finitelySpaced_pause)⟩

/-- Readings further apart than any double can bring a quotient of infinities into the
surplus.  The estimate is not a number then, and the report that resets the controller
makes it zero. -/
theorem report_again_of_endlessRoundTrip :
    let controller := fresh ⟨(Window.initial : Binary64), true, .wrapping⟩
      (finite (-2 ^ (1023 : ℤ)))
    let before := controller.after endlessRoundTrip
    let now := finite (2 ^ (1023 : ℤ))
    let refreshed := (before.recordProgress now before.position).state
    (∀ step ∈ endlessRoundTrip, step.1.IsFinite) ∧
      before.extraNow now = nan ∧
      refreshed.base = none ∧
      refreshed.extraNow now = 0 := by
  decide +kernel

end Controller
end Backpressure
