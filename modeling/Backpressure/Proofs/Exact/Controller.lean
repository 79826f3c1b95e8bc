import Backpressure.Proofs.Controller.Steps
import Backpressure.Proofs.Exact.Whole

/-!
# Controllers in exact arithmetic

In exact arithmetic all byte counts of a controller stay whole, however its
positions are counted and whatever its clock reads.
-/

namespace Backpressure

open Arithmetic

/-! ## Windows -/

namespace Window

theorem Accepted.whole
    {window : ℚ}
    (accepted : Accepted window) :
    Whole window := by
  have floor_eq := beq_iff_eq.mp accepted.1
  exact ⟨⌊window⌋, floor_eq.symm⟩

theorem Accepted.minimum_le
    {window : ℚ}
    (accepted : Accepted window) :
    (minimum : ℚ) ≤ window :=
  accepted.2.1

theorem Accepted.le_maximum
    {window : ℚ}
    (accepted : Accepted window) :
    window ≤ (maximum : ℚ) :=
  accepted.2.2

theorem Accepted.pos
    {window : ℚ}
    (accepted : Accepted window) :
    0 < window := by
  have minimum_le := accepted.minimum_le
  norm_num [minimum] at minimum_le
  linarith

/-- A window is far smaller than the ring. -/
theorem Accepted.lt_halfRing
    {window : ℚ}
    (accepted : Accepted window) :
    window < Counting.halfRing := by
  have le_maximum := accepted.le_maximum
  norm_num [maximum, Counting.halfRing] at le_maximum ⊢
  linarith

theorem Accepted.smaller
    {first second : ℚ}
    (firstAccepted : Accepted first)
    (secondAccepted : Accepted second) :
    Accepted (Arithmetic.smaller first second) := by
  rw [smaller_exact]
  obtain ⟨min_eq, _⟩ | ⟨min_eq, _⟩ := min_cases first second
  · rwa [min_eq]
  · rwa [min_eq]

/-- Whole numbers are taken into the bounds. -/
theorem accepted_clamp
    {value : ℚ}
    (whole : Whole value) :
    Accepted (clamp value) := by
  have clampWhole : Whole (clamp value) :=
    .smaller (.natCast maximum) (.larger (.natCast minimum) whole)
  obtain ⟨number, number_eq⟩ := clampWhole
  refine ⟨?_, ?_, ?_⟩
  · rw [number_eq, floor_exact, Int.floor_intCast, beq_self_eq_true]
  · rw [clamp, smaller_exact, larger_exact]
    exact le_min (by norm_num [minimum, maximum]) (le_max_left _ _)
  · rw [clamp, smaller_exact]
    exact min_le_left _ _

/-- Every adjustment leads from a whole window to a whole number within the
bounds. -/
theorem accepted_next
    {window : ℚ}
    (whole : Whole window)
    (measurement : Measurement ℚ) :
    Accepted (next measurement window) := by
  apply accepted_clamp
  cases adjustment measurement with
  | shrinkMultiplicative => exact .floor _
  | shrink => exact whole.sub (.natCast decrement)
  | growFast => exact whole.add (.natCast fastIncrement)
  | grow => exact whole.add (.natCast increment)
  | hold => exact whole

end Window

/-! ## Buffers -/

namespace Buffering

variable {window base : ℚ}

theorem drained_nonneg
    (window_pos : 0 < window)
    (base_pos : 0 < base)
    {span : ℚ}
    (nonneg : 0 ≤ span) :
    0 ≤ drained window base span := by
  apply floor_nonneg
  positivity

end Buffering

/-! ## Controllers -/

namespace Controller

/-- All byte counts of a controller are whole. -/
structure Whole (controller : Controller ℚ) : Prop where
  /-- The window to start with is within its bounds. -/
  initialWindow : Window.Accepted controller.config.initialWindow
  /-- So is the window. -/
  window : Window.Accepted controller.window
  /-- The position is whole. -/
  position : Arithmetic.Whole controller.position
  /-- The surplus is whole. -/
  extra : Arithmetic.Whole controller.extra
  /-- The surplus is not negative. -/
  extra_nonneg : 0 ≤ controller.extra
  /-- The wire latency takes time, if it is known. -/
  base_pos : ∀ base, controller.base = some base → 0 < base
  /-- The positions of the probes without an answer and of the last answered one
  are whole. -/
  probes : ∀ probe ∈ controller.answered :: controller.pending,
    Arithmetic.Whole probe.position

theorem whole_fresh
    {config : Config ℚ}
    (accepted : Window.Accepted config.initialWindow)
    (now : ℚ) :
    (fresh config now).Whole where
  initialWindow := accepted
  window := accepted
  position := .zero
  extra := .zero
  extra_nonneg := le_rfl
  base_pos := fun base known => by contradiction
  probes := by
    intro probe member
    obtain rfl := List.mem_singleton.mp member
    exact .zero

/-- The controller that is started at clock reading zero without any wishes, in
exact arithmetic. -/
def exactDefault : Controller ℚ :=
  fresh ⟨(Window.initial : ℚ), true, .wrapping⟩ 0

theorem start_exactDefault :
    start ⟨none, none⟩ true (0 : ℚ) = .ok exactDefault := by
  have accepted : Window.Accepted (Window.initial : ℚ) := by decide +kernel
  unfold start
  exact if_pos accepted

section Steps

variable {controller : Controller ℚ}

theorem Whole.checked
    (whole : controller.Whole)
    (now total : ℚ) :
    (controller.checked now total).Whole := by
  have noted_eq := controller.noteActivity_eq now (controller.added total)
  obtain ⟨_, reset⟩ | ⟨_, kept⟩ := controller.checked_cases now total
  · rw [reset, noted_eq]
    exact { whole with
      window := whole.initialWindow.smaller whole.window
      base_pos := fun base known => by contradiction }
  · rw [kept, noted_eq]
    exact { whole with }

/-- A whole number of bytes joins the surplus, and a whole number drains. -/
theorem Whole.surplusAfter
    (whole : controller.Whole)
    (now : ℚ)
    {added : ℚ}
    (addedWhole : Arithmetic.Whole added) :
    Arithmetic.Whole (controller.surplusAfter now added) ∧
      0 ≤ controller.surplusAfter now added := by
  unfold Controller.surplusAfter
  cases controller.base with
  | none => exact ⟨whole.extra, whole.extra_nonneg⟩
  | some base =>
      exact ⟨.larger .zero ((whole.extra.add addedWhole).sub (.floor _)),
        larger_zero_nonneg _⟩

theorem Whole.recordProgress
    (whole : controller.Whole)
    (now : ℚ)
    {total : ℚ}
    (positionWhole : Arithmetic.Whole
      (controller.config.counting.position total)) :
    (controller.recordProgress now total).state.Whole := by
  have checked := whole.checked now total
  have addedWhole : Arithmetic.Whole (controller.added total) :=
    Counting.distance_whole _ positionWhole whole.position
  obtain ⟨surplusWhole, surplus_nonneg⟩ :=
    checked.surplusAfter now addedWhole
  rw [state_recordProgress]
  exact { checked with
    position := positionWhole
    extra := surplusWhole
    extra_nonneg := surplus_nonneg }

theorem Whole.probeSent (whole : controller.Whole) (now : ℚ) :
    (controller.probeSent now).state.Whole := by
  rw [state_probeSent]
  exact { whole with
    probes := by
      rw [← List.cons_append, List.forall_mem_append]
      exact ⟨whole.probes, List.forall_mem_singleton.mpr whole.position⟩ }

theorem roundTrip_pos (probe : Probe ℚ) (now : ℚ) :
    0 < roundTrip probe now := by
  unfold roundTrip
  rw [larger_exact]
  exact lt_max_of_lt_left one_pos

/-- The wire latency and the probes after an answer, before its round trip
counts as a sample. -/
theorem Whole.measured
    (whole : controller.Whole)
    (now : ℚ)
    {probe : Probe ℚ}
    {rest : List (Probe ℚ)}
    (pending : controller.pending = probe :: rest) :
    (controller.measured now probe rest).Whole :=
  { whole with
    base_pos := by
      intro base known
      obtain rfl := Option.some.inj known
      have measured := roundTrip_pos probe now
      cases known : controller.base with
      | none => exact measured
      | some base =>
          rw [lowered, smaller_exact]
          exact lt_min (whole.base_pos base known) measured
    probes := by
      intro other member
      apply whole.probes other
      rw [pending]
      exact List.mem_cons_of_mem _ member }

theorem Whole.sample
    (whole : controller.Whole)
    (now base roundTrip : ℚ)
    (probe : Probe ℚ) :
    (controller.sample now base roundTrip probe).state.Whole := by
  obtain ⟨window, _, _, _, _, state_eq, window_eq⟩ :=
    controller.state_sample now base roundTrip probe
  rw [state_eq]
  refine { whole with window := ?_ }
  obtain rfl | ⟨measurement, rfl⟩ := window_eq
  · exact whole.window
  · exact Window.accepted_next whole.window.whole measurement

theorem Whole.probeAnswered (whole : controller.Whole) (now : ℚ) :
    (controller.probeAnswered now).state.Whole := by
  cases pending : controller.pending with
  | nil =>
      rw [probeAnswered_of_stray pending]
      exact whole
  | cons probe rest =>
      have measured := whole.measured now pending
      rw [probeAnswered_of_pending pending]
      split
      · exact measured
      · exact measured.sample now _ _ _

/-- Reports of whole positions keep all byte counts whole. -/
theorem Whole.perform
    (whole : controller.Whole)
    (now : ℚ)
    {action : Action ℚ}
    (positionWhole : ∀ total, action = .recordProgress total →
      Arithmetic.Whole (controller.config.counting.position total)) :
    (controller.perform now action).state.Whole := by
  cases action with
  | recordProgress total =>
      exact whole.recordProgress now (positionWhole total rfl)
  | probeSent => exact whole.probeSent now
  | probeAnswered => exact whole.probeAnswered now

/-- On the ring, any history keeps all byte counts whole. -/
theorem Whole.after
    (whole : controller.Whole)
    (counting : controller.config.counting = .wrapping)
    (history : List (ℚ × Action ℚ)) :
    (controller.after history).Whole ∧
      (controller.after history).config.counting = .wrapping := by
  induction history generalizing controller with
  | nil => exact ⟨whole, counting⟩
  | cons step rest inductionHypothesis =>
      obtain ⟨now, action⟩ := step
      apply inductionHypothesis
      · apply whole.perform
        intro total _
        rw [counting]
        exact .residue total
      · rw [config_perform, counting]

/-! ## What the peer receives -/

theorem whole_receivedSince (controller : Controller ℚ) (base now : ℚ) :
    Arithmetic.Whole (controller.receivedSince base now) := by
  unfold receivedSince
  dsimp only
  split
  · exact .zero
  · exact .floor _

theorem Whole.receivedSince_nonneg
    (whole : controller.Whole)
    {base : ℚ}
    (known : controller.base = some base)
    (now : ℚ) :
    0 ≤ controller.receivedSince base now := by
  unfold receivedSince
  dsimp only
  split_ifs with soon
  · exact le_rfl
  · exact Buffering.drained_nonneg whole.window.pos (whole.base_pos base known)
      (sub_nonneg.mpr (not_le.mp soon).le)

end Steps

end Controller
end Backpressure
