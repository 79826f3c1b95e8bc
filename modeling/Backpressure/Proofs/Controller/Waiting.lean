import Backpressure.Proofs.Controller.Arrival
import Backpressure.Proofs.Controller.Idle

/-!
# Waiting without news

Reports that neither move the position nor reset the controller leave the wait until the
window has room as it is: a probe that makes room is pending already, so the surplus and the
time of the last report do not count.  In whole milliseconds the wait then gets shorter by
no more than the time that passes.
-/

namespace Backpressure
namespace Controller

/-! ## Controllers without news -/

section Unmoved

variable {α : Type}

/-- Nothing but the surplus and the times of reports and of activity has changed. -/
def Unmoved (controller later : Controller α) : Prop :=
  later = { controller with
    extra := later.extra
    updatedAt := later.updatedAt
    busyAt := later.busyAt }

theorem Unmoved.refl (controller : Controller α) : controller.Unmoved controller := rfl

theorem Unmoved.trans
    {first second third : Controller α}
    (early : first.Unmoved second)
    (late : second.Unmoved third) :
    first.Unmoved third := by
  unfold Unmoved at early late ⊢
  rw [late, early]

variable [Arithmetic α] {controller later : Controller α}

/-- A report of the position changes nothing else unless it resets the controller. -/
theorem unmoved_recordProgress
    {now total : α}
    (same : controller.config.counting.position total = controller.position)
    (busy : ∀ notice ∈ (controller.recordProgress now total).events,
      notice.isReset = false) :
    controller.Unmoved (controller.recordProgress now total).state := by
  have noted_eq := controller.noteActivity_eq now (controller.added total)
  obtain ⟨_, reset⟩ | ⟨_, kept⟩ := controller.recordProgress_cases now total
  · rw [reset] at busy
    cases busy _ List.mem_cons_self
  · rw [kept, noted_eq, same]
    rfl

/-- A pending probe that makes room keeps the walk from the last report. -/
theorem arrival_of_unmoved
    (unmoved : controller.Unmoved later)
    (base : α)
    {previous : Probe α}
    {waited : α}
    {probes : List (Probe α)}
    (ahead : ∃ probe ∈ probes,
      controller.isAfter probe.position controller.target = true) :
    later.arrival base previous waited probes =
      controller.arrival base previous waited probes := by
  unfold Unmoved at unmoved
  rw [unmoved]
  induction probes generalizing previous waited with
  | nil =>
      obtain ⟨probe, member, _⟩ := ahead
      contradiction
  | cons probe rest inductionHypothesis =>
      by_cases room : controller.isAfter probe.position controller.target = true
      · unfold arrival
        rw [if_pos room]
        exact if_pos room
      · have restAhead := ((List.exists_mem_cons_iff _ _ _).mp ahead).resolve_left room
        unfold arrival
        rw [if_neg room]
        exact (if_neg room).trans (inductionHypothesis restAhead)

theorem untilUncongested_of_unmoved
    (unmoved : controller.Unmoved later)
    (ahead : ∃ probe ∈ controller.answered :: controller.pending,
      controller.isAfter probe.position controller.target = true)
    (now : α) :
    later.untilUncongested now = controller.untilUncongested now := by
  have later_eq := unmoved
  unfold Unmoved at later_eq
  by_cases room : controller.isAfter controller.answered.position controller.target = true
  · rw [later_eq]
    unfold untilUncongested
    rw [if_pos room]
    exact if_pos room
  · have pendingAhead := ((List.exists_mem_cons_iff _ _ _).mp ahead).resolve_left room
    have arrival_eq (base : α) :
        later.arrival base controller.answered 0 controller.pending =
          controller.arrival base controller.answered 0 controller.pending :=
      arrival_of_unmoved unmoved base pendingAhead
    rw [later_eq] at arrival_eq ⊢
    unfold untilUncongested
    rw [if_neg room]
    refine (if_neg room).trans ?_
    simp only [arrival_eq]

/-- A wait that is unknown stays so while time passes. -/
theorem untilUncongested_eq_none
    {now : α}
    (unknown : controller.untilUncongested now = none)
    (other : α) :
    controller.untilUncongested other = none := by
  unfold untilUncongested at unknown ⊢
  split at unknown
  · contradiction
  · next behind =>
      rw [if_neg behind, Option.map_eq_none_iff.mp unknown, Option.map_none]

end Unmoved

/-! ## Whole milliseconds -/

open Binary64

/-- Readings of whole milliseconds that take no rounding. -/
def Ticks (readings : Set Binary64) : Prop :=
  ∀ now ∈ readings, ∃ ticks : ℕ, now = finite ticks ∧ ticks < 2 ^ 53

theorem Ticks.spaced
    {readings : Set Binary64}
    (ticks : Ticks readings) :
    Spaced 800 readings := by
  intro earlier earlier_mem later later_mem
  obtain ⟨first, rfl, first_lt⟩ := ticks earlier earlier_mem
  obtain ⟨second, rfl, second_lt⟩ := ticks later later_mem
  rw [subtract_natCast second_lt first_lt, finite_le_finite]
  have second_le : (second : ℚ) ≤ 2 ^ 53 := by exact_mod_cast second_lt.le
  calc (second : ℚ) - first ≤ 2 ^ 53 := by linarith [Nat.cast_nonneg (α := ℚ) first]
    _ = 2 ^ (53 : ℤ) := by norm_num
    _ ≤ 2 ^ (800 : ℤ) := zpow_le_zpow_right₀ (by norm_num) (by norm_num)

section Countdown

variable {readings : Set Binary64} {controller : Controller Binary64}

/-- In whole milliseconds the wait gets shorter by no more than the time that passes. -/
theorem Sound.untilUncongested_add_le
    (ticks : Ticks readings)
    (sound : controller.Sound readings)
    {first second wait : ℕ}
    (first_mem : finite first ∈ readings)
    (second_mem : finite second ∈ readings)
    (forward : first ≤ second)
    (estimated : controller.untilUncongested (finite first) = some (finite wait))
    (wait_le : wait ≤ 2 ^ 52) :
    ∃ left : ℕ, controller.untilUncongested (finite second) = some (finite left) ∧
      first + wait ≤ second + left := by
  unfold untilUncongested at estimated ⊢
  split at estimated
  · next room =>
      have nothing : wait = 0 := by
        rw [literal_zero] at estimated
        injection estimated with wait_eq
        exact_mod_cast (finite.inj wait_eq).symm
      rw [if_pos room]
      exact ⟨0, by rw [literal_zero, Nat.cast_zero], by omega⟩
  · next behind =>
      obtain ⟨base, known, left_eq⟩ := Option.map_eq_some_iff.mp estimated
      obtain ⟨arrival, arrival_eq, _⟩ := arrival_whole ticks.spaced sound
        (sound.base base known) sound.pending sound.answered behind .zero
      obtain ⟨answeredAt, answeredAt_eq, answeredAt_lt⟩ := ticks _ sound.answeredAt
      have elapsed_eq {now : ℕ} (now_mem : finite now ∈ readings) :
          Time.elapsed controller.answeredAt (finite now) =
            finite (now - answeredAt : ℕ) := by
        obtain ⟨_, now_eq, now_lt⟩ := ticks _ now_mem
        rw [finite.injEq, Nat.cast_inj] at now_eq
        rw [answeredAt_eq]
        exact Binary64.elapsed_natCast answeredAt_lt (now_eq ▸ now_lt)
      rw [if_neg behind, known, Option.map_some]
      simp only [arrival_eq, elapsed_eq first_mem, finite_lt_finite, Nat.cast_lt] at left_eq
      simp only [arrival_eq, elapsed_eq second_mem, finite_lt_finite, Nat.cast_lt]
      have wait_eq : wait = arrival - (first - answeredAt) := by
        split at left_eq
        · next past =>
            rw [literal_zero, finite.injEq] at left_eq
            have nothing : wait = 0 := by exact_mod_cast left_eq.symm
            omega
        · next ahead => exact subtract_eq_of_small (not_lt.mp ahead) left_eq wait_le
      refine ⟨arrival - (second - answeredAt), ?_, by omega⟩
      split
      · next past =>
          rw [literal_zero, Nat.sub_eq_zero_of_le past.le, Nat.cast_zero]
      · next ahead =>
          rw [subtract_finite, ← Nat.cast_sub (not_lt.mp ahead),
            Binary64.round_natCast (by omega)]

end Countdown

end Controller
end Backpressure
