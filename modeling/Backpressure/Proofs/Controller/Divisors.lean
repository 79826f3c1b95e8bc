import Backpressure.Proofs.Controller.Arrival
import Backpressure.Proofs.Controller.Burst

/-!
# What the estimates divide by

Every estimate lists what it divides by.  The lists are complete: an arithmetic that
takes other quotients, but agrees on what is listed, leads to the same answers.  As
long as no difference of clock readings overflows, all that is listed is positive.
The windows and the wire latency are so by themselves, an interval is if an answer is
not overdue, and the distances are because the target lies between their ends.
-/

namespace Backpressure

open Binary64

theorem Window.Ranged.pos {window : Binary64} (ranged : Ranged window) :
    0 < window := by
  obtain ⟨bytes, rfl, bytes_ge, _⟩ := ranged
  unfold Window.minimum at bytes_ge
  rw [literal_zero, finite_lt_finite, Nat.cast_pos]
  omega

theorem RoundTrip.pos
    {readings : Set Binary64}
    (spaced : FinitelySpaced readings)
    {base : Binary64}
    (measured : RoundTrip readings base) :
    0 < base := by
  obtain ⟨base, rfl, base_pos⟩ := measured.exists_natCast spaced
  rw [literal_zero, finite_lt_finite, Nat.cast_pos]
  exact base_pos

namespace Arithmetic

/-- The same arithmetic, except that it takes quotients in a way of its own. -/
@[reducible] def dividing
    {α : Type}
    [arithmetic : Arithmetic α]
    (quotient : α → α → α) : Arithmetic α :=
  { arithmetic with toDiv := ⟨quotient⟩ }

end Arithmetic

namespace Controller

open Arithmetic

/-! ## Lists of divisors -/

section Lists

variable {α : Type} [Arithmetic α]

/-- What the position reached towards a probe divides by.  Nothing is left to be
shared out if the answer is overdue. -/
def reachedTowardsDivisors (controller : Controller α) (now base : α)
    (next : Probe α) : List α :=
  let expected := controller.interval base controller.answered next
  if expected ≤ Time.elapsed controller.answeredAt now then []
  else [expected]

/-- What the position reached by draining divides by. -/
def reachedByDrainingDivisors (controller : Controller α) (now base : α) :
    List α :=
  if Time.elapsed controller.updatedAt now ≤ base then [] else [base]

/-- What the bytes on their way divide by, apart from the window. -/
def inFlightDivisors (controller : Controller α) (now : α) : List α :=
  if controller.position == controller.answered.position then []
  else
    match controller.base, controller.pending with
    | none, _ => []
    | some base, next :: _ => controller.reachedTowardsDivisors now base next
    | some base, [] => controller.reachedByDrainingDivisors now base

/-- What the surplus that is left divides by. -/
def extraNowDivisors (controller : Controller α) : List α :=
  controller.base.toList

/-- What the expected arrival divides by, apart from the window. -/
def arrivalDivisors (controller : Controller α) (previous : Probe α) :
    List (Probe α) → List α
  | [] => [controller.distance controller.position previous.position]
  | probe :: rest =>
    if controller.isAfter probe.position controller.target then
      [controller.distance probe.position previous.position]
    else controller.arrivalDivisors probe rest

/-- What the time until the window has room divides by, apart from the window. -/
def untilUncongestedDivisors (controller : Controller α) : List α :=
  if controller.isAfter controller.answered.position controller.target then []
  else
    match controller.base with
    | none => []
    | some _ =>
      controller.arrivalDivisors controller.answered controller.pending

/-- Everything that the estimates divide by.  The window divides in every
interval. -/
def divisors (controller : Controller α) (now : α) : List α :=
  controller.window :: (controller.inFlightDivisors now ++
    controller.extraNowDivisors ++ controller.untilUncongestedDivisors)

end Lists

/-! ## Other quotients -/

section Quotients

variable {α : Type} [Arithmetic α] {quotient : α → α → α}
variable {controller : Controller α} {now : α}

/-- An arithmetic takes the usual quotients by some divisors. -/
def Agrees (quotient : α → α → α) (divisors : List α) : Prop :=
  ∀ divisor ∈ divisors, ∀ dividend, quotient dividend divisor = dividend / divisor

theorem delay_dividing
    {window : α}
    (agrees : Agrees quotient [window])
    (base extra : α) :
    @Buffering.delay α (dividing quotient) window base extra =
      Buffering.delay window base extra := by
  change Arithmetic.floor (quotient (extra * base) window) = _
  rw [agrees window (List.mem_singleton.mpr rfl)]
  rfl

theorem drained_dividing
    {base : α}
    (agrees : Agrees quotient [base])
    (window span : α) :
    @Buffering.drained α (dividing quotient) window base span =
      Buffering.drained window base span := by
  change Arithmetic.floor (quotient (span * window) base) = _
  rw [agrees base (List.mem_singleton.mpr rfl)]
  rfl

theorem interval_dividing
    {window : α}
    (agrees : Agrees quotient [window])
    (base : α)
    (origin : Probe α)
    (sentAt extra : α) :
    @Buffering.interval α (dividing quotient) window base origin sentAt extra =
      Buffering.interval window base origin sentAt extra := by
  simp only [Buffering.interval, delay_dividing agrees]
  rfl

theorem reachedTowards_dividing
    (window : Agrees quotient [controller.window])
    {base : α}
    {next : Probe α}
    (agrees : Agrees quotient
      (controller.reachedTowardsDivisors now base next)) :
    @reachedTowards α (dividing quotient) controller now base next =
      controller.reachedTowards now base next := by
  simp only [reachedTowards, interval, interval_dividing window]
  by_cases overdue : controller.interval base controller.answered next ≤
      Time.elapsed controller.answeredAt now
  · exact (if_pos overdue).trans (if_pos overdue).symm
  · have quotient_eq := agrees
      (controller.interval base controller.answered next)
      (by simp [reachedTowardsDivisors, overdue])
      (controller.distance next.position controller.answered.position *
        Time.elapsed controller.answeredAt now)
    refine (if_neg overdue).trans (Eq.trans ?_ (if_neg overdue).symm)
    exact congrArg (fun share => controller.config.counting.position
      (controller.answered.position + Arithmetic.floor share)) quotient_eq

theorem reachedByDraining_dividing
    {base : α}
    (agrees : Agrees quotient (controller.reachedByDrainingDivisors now base)) :
    @reachedByDraining α (dividing quotient) controller now base =
      controller.reachedByDraining now base := by
  have received_eq : @receivedSince α (dividing quotient) controller base now =
      controller.receivedSince base now := by
    unfold reachedByDrainingDivisors at agrees
    by_cases soon : Time.elapsed controller.updatedAt now ≤ base
    · exact (if_pos soon).trans (if_pos soon).symm
    · rw [if_neg soon] at agrees
      refine (if_neg soon).trans (Eq.trans ?_ (if_neg soon).symm)
      exact drained_dividing agrees _ _
  exact congrArg (fun received => controller.config.counting.position
    (controller.position - controller.extra +
      Arithmetic.smaller received controller.extra)) received_eq

theorem inFlight_dividing
    (window : Agrees quotient [controller.window])
    (agrees : Agrees quotient (controller.inFlightDivisors now)) :
    @inFlight α (dividing quotient) controller now = controller.inFlight now := by
  unfold inFlightDivisors at agrees
  unfold inFlight
  by_cases answered : controller.position == controller.answered.position
  · rw [if_pos answered, if_pos answered]
  rw [if_neg answered] at agrees ⊢
  rw [if_neg answered]
  cases known : controller.base with
  | none =>
      cases pending : controller.pending with
      | nil => rfl
      | cons next rest => rfl
  | some base =>
      rw [known] at agrees
      cases pending : controller.pending with
      | nil =>
          rw [pending] at agrees
          exact congrArg (controller.distance controller.position)
            (reachedByDraining_dividing agrees)
      | cons next rest =>
          rw [pending] at agrees
          exact congrArg (controller.distance controller.position)
            (reachedTowards_dividing window agrees)

theorem extraNow_dividing
    (agrees : Agrees quotient controller.extraNowDivisors) :
    @extraNow α (dividing quotient) controller now = controller.extraNow now := by
  unfold extraNowDivisors at agrees
  unfold extraNow
  cases known : controller.base with
  | none => rfl
  | some base =>
      rw [known] at agrees
      simp only [drained_dividing agrees]
      rfl

theorem shareBeyondTarget_dividing
    {interval position previous : α}
    (agrees : Agrees quotient [controller.distance position previous]) :
    @shareBeyondTarget α (dividing quotient) controller interval position
        previous =
      controller.shareBeyondTarget interval position previous := by
  change Arithmetic.floor (quotient _ (controller.distance position previous)) = _
  rw [agrees _ (List.mem_singleton.mpr rfl)]
  rfl

theorem arrival_dividing
    (window : Agrees quotient [controller.window])
    {base waited : α}
    {previous : Probe α}
    {probes : List (Probe α)}
    (agrees : Agrees quotient (controller.arrivalDivisors previous probes)) :
    @arrival α (dividing quotient) controller base previous waited probes =
      controller.arrival base previous waited probes := by
  induction probes generalizing previous waited with
  | nil =>
      simp only [arrival, interval_dividing window]
      exact congrArg (waited + ·) (shareBeyondTarget_dividing agrees)
  | cons probe rest inductionHypothesis =>
      unfold arrivalDivisors at agrees
      simp only [arrival, interval, interval_dividing window]
      by_cases ahead : controller.isAfter probe.position controller.target
      · rw [if_pos ahead] at agrees
        refine (if_pos ahead).trans (Eq.trans ?_ (if_pos ahead).symm)
        exact congrArg (waited + ·) (shareBeyondTarget_dividing agrees)
      · rw [if_neg ahead] at agrees
        refine (if_neg ahead).trans (Eq.trans ?_ (if_neg ahead).symm)
        exact inductionHypothesis agrees

theorem untilUncongested_dividing
    (window : Agrees quotient [controller.window])
    (agrees : Agrees quotient controller.untilUncongestedDivisors) :
    @untilUncongested α (dividing quotient) controller now =
      controller.untilUncongested now := by
  unfold untilUncongestedDivisors at agrees
  unfold untilUncongested
  by_cases ahead :
      controller.isAfter controller.answered.position controller.target
  · exact (if_pos ahead).trans (if_pos ahead).symm
  rw [if_neg ahead] at agrees
  refine (if_neg ahead).trans (Eq.trans ?_ (if_neg ahead).symm)
  cases known : controller.base with
  | none => rfl
  | some base =>
      rw [known] at agrees
      simp only [Option.map_some, arrival_dividing window agrees]
      rfl

/-- The lists of divisors are complete: quotients by other divisors do not matter. -/
theorem readout_dividing
    (agrees : Agrees quotient (controller.divisors now)) :
    @readout α (dividing quotient) controller now = controller.readout now := by
  unfold divisors Agrees at agrees
  simp only [List.forall_mem_cons, List.forall_mem_append] at agrees
  obtain ⟨window, ⟨inFlight, extraNow⟩, untilUncongested⟩ := agrees
  have window : Agrees quotient [controller.window] :=
    List.forall_mem_singleton.mpr window
  unfold readout isCongested
  rw [inFlight_dividing window inFlight, extraNow_dividing extraNow,
    untilUncongested_dividing window untilUncongested]

end Quotients

/-! ## Positive divisors -/

section Positive

variable {readings : Set Binary64} {controller : Controller Binary64}
variable {now : Binary64}

/-- Positions on different sides of the target have a positive distance. -/
theorem Sound.distance_pos
    (sound : controller.Sound readings)
    {first second : Binary64}
    (firstOnRing : OnRing first)
    (secondOnRing : OnRing second)
    (ahead : controller.isAfter first controller.target = true)
    (behind : ¬controller.isAfter second controller.target = true) :
    0 < controller.distance first second := by
  obtain ⟨bytes, distance_eq, bytes_pos⟩ :=
    sound.exists_distance_across firstOnRing secondOnRing ahead behind
  rw [distance_eq, literal_zero, finite_lt_finite, Nat.cast_pos]
  exact bytes_pos

/-- An interval that is longer than some time is positive. -/
theorem Sound.interval_pos
    (spaced : FinitelySpaced readings)
    (sound : controller.Sound readings)
    (now_mem : now ∈ readings)
    {base : Binary64}
    (known : controller.base = some base)
    {next : Probe Binary64}
    (nextSound : next.Sound readings)
    (early : ¬controller.interval base controller.answered next ≤
      Time.elapsed controller.answeredAt now) :
    0 < controller.interval base controller.answered next := by
  have count : Count (controller.interval base controller.answered next) :=
    interval_count spaced sound.window (sound.base base known) sound.answered
      nextSound.sentAt nextSound.extra
  obtain ⟨elapsed, elapsed_eq, _⟩ := spaced.elapsed sound.answeredAt now_mem
  rw [elapsed_eq] at early
  obtain endless | ⟨number, number_eq⟩ := count
  · rw [endless]
    rfl
  · rw [number_eq, finite_le_finite, not_le] at early
    rw [number_eq, literal_zero, finite_lt_finite]
    exact (Nat.cast_nonneg elapsed).trans_lt early

theorem Sound.arrivalDivisors_pos
    (sound : controller.Sound readings)
    {previous : Probe Binary64}
    {probes : List (Probe Binary64)}
    (previousSound : previous.Sound readings)
    (probesSound : ∀ probe ∈ probes, probe.Sound readings)
    (behind : ¬controller.isAfter previous.position controller.target = true) :
    ∀ divisor ∈ controller.arrivalDivisors previous probes, 0 < divisor := by
  induction probes generalizing previous with
  | nil =>
      exact List.forall_mem_singleton.mpr (sound.distance_pos sound.position
        previousSound.position (isAfter_position_target sound) behind)
  | cons probe rest inductionHypothesis =>
      obtain ⟨probeSound, restSound⟩ := List.forall_mem_cons.mp probesSound
      unfold arrivalDivisors
      split
      · next ahead =>
          exact List.forall_mem_singleton.mpr (sound.distance_pos
            probeSound.position previousSound.position ahead behind)
      · next behindProbe =>
          exact inductionHypothesis probeSound restSound behindProbe

theorem Sound.inFlightDivisors_pos
    (spaced : FinitelySpaced readings)
    (sound : controller.Sound readings)
    (now_mem : now ∈ readings) :
    ∀ divisor ∈ controller.inFlightDivisors now, 0 < divisor := by
  unfold inFlightDivisors
  split
  · simp
  cases known : controller.base with
  | none => simp
  | some base =>
      have measured := sound.base base known
      cases pending : controller.pending with
      | nil =>
          simp only [reachedByDrainingDivisors]
          split
          · simp
          · exact List.forall_mem_singleton.mpr (measured.pos spaced)
      | cons next rest =>
          have nextSound := sound.pending next (pending ▸ List.mem_cons_self)
          simp only [reachedTowardsDivisors]
          split
          · simp
          · next early =>
              exact List.forall_mem_singleton.mpr
                (sound.interval_pos spaced now_mem known nextSound early)

theorem Sound.untilUncongestedDivisors_pos
    (sound : controller.Sound readings) :
    ∀ divisor ∈ controller.untilUncongestedDivisors, 0 < divisor := by
  unfold untilUncongestedDivisors
  split
  · simp
  · next behind =>
      cases controller.base with
      | none => simp
      | some base =>
          exact sound.arrivalDivisors_pos sound.answered sound.pending behind

/-- Everything that the estimates divide by is positive. -/
theorem Sound.divisors_pos
    (spaced : FinitelySpaced readings)
    (sound : controller.Sound readings)
    (now_mem : now ∈ readings) :
    ∀ divisor ∈ controller.divisors now, 0 < divisor := by
  have extraNow_pos : ∀ divisor ∈ controller.extraNowDivisors, 0 < divisor := by
    intro base member
    rw [extraNowDivisors, Option.mem_toList] at member
    exact (sound.base base member).pos spaced
  unfold divisors
  rw [List.forall_mem_cons, List.forall_mem_append, List.forall_mem_append]
  exact ⟨sound.window.pos,
    ⟨sound.inFlightDivisors_pos spaced now_mem, extraNow_pos⟩,
    sound.untilUncongestedDivisors_pos⟩

end Positive

end Controller
end Backpressure
