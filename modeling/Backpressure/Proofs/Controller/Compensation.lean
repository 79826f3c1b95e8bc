import Backpressure.Proofs.Binary64.Monotone
import Backpressure.Proofs.Binary64.Unsigned
import Backpressure.Proofs.Controller.Checks

/-!
# Compensated round trips

A sample counts without the delay of its own surplus.  At any finite clock
readings it lies between the wire latency and the measured round trip: no delay is
negative, and rounding what is left of a round trip does not take it above the
round trip itself.
-/

namespace Backpressure

open Binary64

/-! ## Measured times -/

/-- A measured time is a whole number of milliseconds, at least one, or the infinity
that stands for one too long. -/
def Latency (value : Binary64) : Prop :=
  value = infinity false ∨
    ∃ number : ℕ, value = finite number ∧ 1 ≤ number ∧
      Binary64.round number = finite number

section Latencies

variable {value first second : Binary64}

theorem Latency.unsigned (latency : Latency value) : Unsigned value := by
  obtain rfl | ⟨number, rfl, _⟩ := latency
  · exact unsigned_endless
  · exact unsigned_finite (Nat.cast_nonneg number)

theorem Latency.ne_nan (latency : Latency value) : value ≠ nan := by
  obtain rfl | ⟨number, rfl, _⟩ := latency
  · simp
  · simp

/-- A measured time is at least a millisecond. -/
theorem Latency.larger_one (latency : Latency value) :
    Arithmetic.larger 1 value = value := by
  rw [literal_one]
  obtain rfl | ⟨number, rfl, number_pos, _⟩ := latency
  · rfl
  · rw [larger_finite, max_eq_right (by exact_mod_cast number_pos)]

theorem Latency.smaller
    (firstLatency : Latency first)
    (secondLatency : Latency second) :
    Latency (Arithmetic.smaller first second) := by
  obtain ⟨smaller_eq, _⟩ | ⟨smaller_eq, _⟩ :=
    smaller_cases firstLatency.ne_nan secondLatency.ne_nan
  · rwa [smaller_eq]
  · rwa [smaller_eq]

end Latencies

theorem Window.Bounded.unsigned
    {window : Binary64}
    (bounded : Bounded window) :
    Unsigned window := by
  obtain rfl | ⟨bytes, rfl, _⟩ := bounded
  · exact unsigned_nan
  · exact unsigned_finite (Nat.cast_nonneg bytes)

namespace Controller

variable {controller : Controller Binary64} {now : Binary64}

theorem latency_roundTrip
    {probe : Probe Binary64}
    (sentFinite : probe.sentAt.IsFinite)
    (nowFinite : now.IsFinite) :
    Latency (roundTrip probe now) := by
  unfold roundTrip
  rw [literal_one]
  obtain endless | ⟨number, elapsed_eq, kept⟩ :=
    elapsed_cases sentFinite nowFinite
  · left
    rw [endless]
    rfl
  · right
    rw [elapsed_eq, larger_finite]
    obtain few | enough := Nat.lt_or_ge number 1
    · refine ⟨1, ?_, le_rfl, Binary64.round_natCast (by norm_num)⟩
      rw [Nat.cast_one, max_eq_left (by exact_mod_cast few.le)]
    · exact ⟨number, by rw [max_eq_right (by exact_mod_cast enough)], enough,
        kept⟩

theorem latency_lowered
    {known : Option Binary64}
    {value : Binary64}
    (knownLatency : ∀ other, known = some other → Latency other)
    (latency : Latency value) :
    Latency (lowered known value) := by
  cases known with
  | none => exact latency
  | some other => exact (knownLatency other rfl).smaller latency

/-! ## Compensation -/

/-- A round trip less the delay that a surplus causes, and at least the wire
latency.  A difference of infinities, which is no number, leaves the wire
latency. -/
def compensation (window base roundTrip extra : Binary64) : Binary64 :=
  let rest := roundTrip - Buffering.delay window base extra
  if rest = nan then base else Arithmetic.larger base rest

/-- What is negative before rounding is not above a positive number after it. -/
theorem larger_finite_round_of_nonpos
    {bound value : ℚ}
    (bound_pos : 0 < bound)
    (nonpos : value ≤ 0) :
    Arithmetic.larger (finite bound) (Binary64.round value) = finite bound := by
  have not_le : ¬finite bound ≤ finite 0 := by
    rw [finite_le_finite]
    exact not_le.mpr bound_pos
  have boundNumber : finite bound ≠ nan := by simp
  have zeroNumber : (0 : Binary64) ≠ nan := by simp
  obtain ⟨larger_eq, _⟩ | ⟨_, bound_le⟩ :=
    larger_cases boundNumber (round_ne_nan value)
  · exact larger_eq
  exfalso
  obtain negative | rfl := nonpos.lt_or_eq
  · have clipped := larger_zero_round_of_neg negative
    obtain ⟨_, round_le⟩ | ⟨round_eq, _⟩ :=
      larger_cases zeroNumber (round_ne_nan value)
    · rw [literal_zero] at round_le
      exact not_le (Binary64.le_trans bound_le round_le)
    · rw [round_eq, literal_zero] at clipped
      rw [clipped] at bound_le
      exact not_le bound_le
  · rw [Binary64.round_zero] at bound_le
    exact not_le bound_le

/-- A delay that is not below the round trip leaves the wire latency. -/
theorem compensation_of_not_lt
    {window base roundTrip extra : Binary64}
    (baseLatency : Latency base)
    (latency : Latency roundTrip)
    (base_le : base ≤ roundTrip)
    (delayUnsigned : Unsigned (Buffering.delay window base extra))
    (long : ¬Buffering.delay window base extra < roundTrip) :
    compensation window base roundTrip extra = base := by
  unfold compensation
  simp only
  generalize Buffering.delay window base extra = delay at delayUnsigned long
  obtain rfl | rfl | ⟨delay, rfl, _⟩ := delayUnsigned.cases
  · apply if_pos
    cases roundTrip <;> rfl
  · obtain rfl | ⟨trip, rfl, _⟩ := latency
    · exact if_pos rfl
    · obtain rfl | ⟨low, rfl, _⟩ := baseLatency
      · contradiction
      · exact if_neg nofun
  · obtain rfl | ⟨trip, rfl, _⟩ := latency
    · exact absurd rfl long
    · obtain rfl | ⟨low, rfl, low_pos, _⟩ := baseLatency
      · contradiction
      · have low_pos' : (0 : ℚ) < low := by exact_mod_cast low_pos
        rw [finite_lt_finite, not_lt] at long
        rw [subtract_finite, if_neg (round_ne_nan _),
          larger_finite_round_of_nonpos low_pos' (sub_nonpos.mpr long)]

/-- A shorter delay leaves the rest of the round trip, unless the wire latency is
more. -/
theorem compensation_of_lt
    {window base roundTrip extra : Binary64}
    (baseLatency : Latency base)
    (latency : Latency roundTrip)
    (base_le : base ≤ roundTrip)
    (delayUnsigned : Unsigned (Buffering.delay window base extra))
    (short : Buffering.delay window base extra < roundTrip) :
    compensation window base roundTrip extra =
        Arithmetic.larger (roundTrip - Buffering.delay window base extra)
          base ∧
      compensation window base roundTrip extra ≤ roundTrip := by
  have restNumber := subtract_ne_nan_of_less short
  unfold compensation
  simp only [if_neg restNumber]
  clear restNumber
  generalize Buffering.delay window base extra = delay at delayUnsigned short
  obtain rfl | rfl | ⟨delay, rfl, delay_nonneg⟩ := delayUnsigned.cases
  · exact absurd rfl (ne_nan_of_le (le_of_below short)).1
  · obtain rfl | ⟨trip, rfl, _⟩ := latency
    · contradiction
    · contradiction
  · obtain rfl | ⟨trip, rfl, _, kept⟩ := latency
    · rw [endless_subtract_finite]
      obtain rfl | ⟨low, rfl, _⟩ := baseLatency
      · exact ⟨rfl, rfl⟩
      · exact ⟨rfl, rfl⟩
    · obtain rfl | ⟨low, rfl, _⟩ := baseLatency
      · contradiction
      · rw [finite_lt_finite] at short
        rw [finite_le_finite] at base_le
        obtain ⟨rest, rest_eq, rest_le⟩ :=
          round_subtract_le kept delay_nonneg short.le
        rw [subtract_finite, rest_eq, larger_finite, larger_finite, max_comm,
          finite_le_finite]
        exact ⟨rfl, max_le rest_le base_le⟩

/-- This is how a controller compensates its samples, and the result is not above
the measured round trip. -/
theorem compensated_eq
    {base roundTrip extra : Binary64}
    (baseLatency : Latency base)
    (latency : Latency roundTrip)
    (base_le : base ≤ roundTrip)
    (windowUnsigned : Unsigned controller.window)
    (extraUnsigned : Unsigned extra) :
    controller.compensated base roundTrip extra =
        compensation controller.window base roundTrip extra ∧
      compensation controller.window base roundTrip extra ≤ roundTrip := by
  have delayUnsigned : Unsigned
      (Buffering.delay controller.window base extra) :=
    ((extraUnsigned.multiply baseLatency.unsigned).divide
      windowUnsigned).floor
  unfold Controller.compensated
  by_cases short : Buffering.delay controller.window base extra < roundTrip
  · obtain ⟨compensation_eq, le⟩ := compensation_of_lt baseLatency latency
      base_le delayUnsigned short
    simp only [if_pos short]
    exact ⟨compensation_eq.symm, le⟩
  · have compensation_eq := compensation_of_not_lt baseLatency latency base_le
      delayUnsigned short
    simp only [if_neg short]
    rw [compensation_eq, baseLatency.larger_one]
    exact ⟨rfl, base_le⟩

/-! ## What is measured -/

/-- Windows and amounts of bytes have no negative sign, and times are measured. -/
structure Metered (controller : Controller Binary64) : Prop
    extends Windowed controller where
  /-- The surplus has no negative sign. -/
  extra : Unsigned controller.extra
  /-- The wire latency is a measured time. -/
  base : ∀ base, controller.base = some base → Latency base
  /-- Pending probes were sent at finite readings, and their surplus has no negative
  sign. -/
  pending : ∀ probe ∈ controller.pending,
    probe.sentAt.IsFinite ∧ Unsigned probe.extra

theorem metered_of_start
    {options : Options Binary64}
    {verifyByDefault : Bool}
    (started : start options verifyByDefault now = .ok controller) :
    controller.Metered := by
  have windowed := windowed_of_start started
  obtain ⟨config, rfl, _⟩ := start_ok started
  exact { windowed with
    extra := by
      change Unsigned 0
      rw [literal_zero]
      exact unsigned_finite le_rfl
    base := fun base known => by contradiction
    pending := fun probe member => by contradiction }

/-- Whatever is added and drained, the surplus has no negative sign. -/
theorem unsigned_surplusAfter
    (extraUnsigned : Unsigned controller.extra)
    (added : Binary64) :
    Unsigned (controller.surplusAfter now added) := by
  unfold surplusAfter
  cases controller.base with
  | none => exact extraUnsigned
  | some base => exact unsigned_larger_zero _

theorem Metered.unsigned_extraNow
    (metered : controller.Metered)
    (now : Binary64) :
    Unsigned (controller.extraNow now) := by
  have nothing : Unsigned 0 := by
    rw [literal_zero]
    exact unsigned_finite le_rfl
  unfold extraNow
  cases known : controller.base with
  | none => exact nothing
  | some base =>
      have elapsedUnsigned :
          Unsigned (Time.elapsed controller.updatedAt now) :=
        unsigned_larger_zero _
      have drainedUnsigned : Unsigned (Buffering.drained controller.window base
          (Time.elapsed controller.updatedAt now)) :=
        ((elapsedUnsigned.multiply metered.window.unsigned).divide
          (metered.base base known).unsigned).floor
      simp only
      split
      · exact nothing
      · next more =>
          exact metered.extra.subtract_of_not_le drainedUnsigned more

theorem Metered.recordProgress
    (metered : controller.Metered)
    (total : Binary64) :
    (controller.recordProgress now total).state.Metered := by
  have windowed := metered.toWindowed.perform now (.recordProgress total)
  change (controller.recordProgress now total).state.Windowed at windowed
  have noted_eq := controller.noteActivity_eq now (controller.added total)
  obtain ⟨_, reset⟩ | ⟨_, kept⟩ := controller.recordProgress_cases now total
  · rw [reset] at windowed ⊢
    rw [noted_eq] at windowed ⊢
    exact { windowed with
      extra := metered.extra
      base := fun base known => by contradiction
      pending := metered.pending }
  · rw [kept] at windowed ⊢
    rw [noted_eq] at windowed ⊢
    exact { windowed with
      extra := unsigned_surplusAfter metered.extra _
      base := metered.base
      pending := metered.pending }

theorem Metered.probeSent
    (metered : controller.Metered)
    (nowFinite : now.IsFinite) :
    (controller.probeSent now).state.Metered := by
  rw [state_probeSent]
  exact { metered with
    pending := List.forall_mem_append.mpr ⟨metered.pending,
      List.forall_mem_singleton.mpr
        ⟨nowFinite, metered.unsigned_extraNow now⟩⟩ }

/-- The wire latency after the answer to a pending probe. -/
theorem base_probeAnswered
    {probe : Probe Binary64}
    {rest : List (Probe Binary64)}
    (pending : controller.pending = probe :: rest) :
    (controller.probeAnswered now).state.base =
      some (lowered controller.base (roundTrip probe now)) := by
  rw [probeAnswered_of_pending pending]
  split
  · rfl
  · obtain ⟨_, _, _, _, _, state_eq, _⟩ :=
      state_sample (controller.measured now probe rest) now
        (lowered controller.base (roundTrip probe now)) (roundTrip probe now)
        probe
    rw [state_eq]
    rfl

theorem Metered.probeAnswered
    (metered : controller.Metered)
    (nowFinite : now.IsFinite) :
    (controller.probeAnswered now).state.Metered := by
  have windowed := metered.toWindowed.perform now .probeAnswered
  change (controller.probeAnswered now).state.Windowed at windowed
  cases pending : controller.pending with
  | nil =>
      rw [probeAnswered_of_stray pending]
      exact metered
  | cons probe rest =>
      have probes := metered.pending
      rw [pending] at probes
      obtain ⟨⟨sentFinite, _⟩, restMetered⟩ := List.forall_mem_cons.mp probes
      exact { windowed with
        extra := by
          rw [extra_probeAnswered]
          exact metered.extra
        base := by
          intro base known
          rw [base_probeAnswered pending, Option.some.injEq] at known
          rw [← known]
          exact latency_lowered metered.base
            (latency_roundTrip sentFinite nowFinite)
        pending := by
          rw [pending_probeAnswered, pending]
          exact restMetered }

/-- Reports at finite readings keep everything measured. -/
theorem Metered.perform
    (metered : controller.Metered)
    (nowFinite : now.IsFinite)
    (action : Action Binary64) :
    (controller.perform now action).state.Metered := by
  cases action with
  | recordProgress total => exact metered.recordProgress total
  | probeSent => exact metered.probeSent nowFinite
  | probeAnswered => exact metered.probeAnswered nowFinite

end Controller
end Backpressure
