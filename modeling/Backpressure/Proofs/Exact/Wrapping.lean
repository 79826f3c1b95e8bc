import Backpressure.Proofs.Controller.Renaming
import Backpressure.Proofs.Exact.Controller

/-!
# Wrapping positions

A controller on the ring answers like an ideal one that keeps the totals of
bytes, however often the ring wraps, as long as the bytes without an answer span
less than half of the ring and the surplus less than all of it.  The controller
on the ring is the ideal one with its positions reduced, before and after every
report.
-/

namespace Backpressure

open Arithmetic

/-- Positions are reduced to the ring, and clock readings stay. -/
def Naming.wrapped : Naming ℚ where
  config := fun config => { config with counting := .wrapping }
  position := Arithmetic.residue
  reading := id

@[simp] theorem Naming.position_wrapped (position : ℚ) :
    Naming.wrapped.position position = Arithmetic.residue position := rfl

theorem Naming.steady_wrapped : Naming.wrapped.Steady where
  initialWindow := fun _ => rfl
  elapsed := fun _ _ => rfl
  less := fun _ _ => Iff.rfl

namespace Controller

/-- What holds of a controller that keeps totals: they are whole, and probes are
answered in the order of their positions. -/
structure Ideal (controller : Controller ℚ) : Prop extends Whole controller where
  /-- Positions are totals. -/
  counting : controller.config.counting = .unbounded
  /-- Positions of probes never decrease. -/
  sorted : (controller.answered :: controller.pending).Pairwise
    fun earlier later => earlier.position ≤ later.position
  /-- No probe is ahead of the last report. -/
  newest : ∀ probe ∈ controller.answered :: controller.pending,
    probe.position ≤ controller.position

/-- The bytes without an answer span less than half of the ring, and the surplus
less than all of it. -/
structure Near (controller : Controller ℚ) : Prop where
  /-- The bytes handed over since the last answered probe. -/
  unanswered : controller.position - controller.answered.position <
    Counting.halfRing
  /-- The surplus. -/
  extra : controller.extra < ringSize

instance (controller : Controller ℚ) : Decidable controller.Near :=
  decidable_of_iff
    (controller.position - controller.answered.position < Counting.halfRing ∧
      controller.extra < ringSize)
    ⟨fun near => ⟨near.1, near.2⟩, fun near => ⟨near.1, near.2⟩⟩

/-- A position that is neither ahead of the last report nor half of the ring
behind it. -/
structure Recent (controller : Controller ℚ) (position : ℚ) : Prop where
  /-- It is whole. -/
  whole : Arithmetic.Whole position
  /-- It is not ahead. -/
  le_position : position ≤ controller.position
  /-- It is not far behind. -/
  near : controller.position - position < Counting.halfRing

section Estimates

variable {controller : Controller ℚ}

/-! ## Recent positions -/

theorem Ideal.recent_position (ideal : controller.Ideal) :
    controller.Recent controller.position where
  whole := ideal.position
  le_position := le_rfl
  near := by norm_num [Counting.halfRing]

theorem Ideal.recent_answered
    (ideal : controller.Ideal)
    (near : controller.Near) :
    controller.Recent controller.answered.position where
  whole := ideal.probes _ List.mem_cons_self
  le_position := ideal.newest _ List.mem_cons_self
  near := near.unanswered

/-- What lies between a recent position and the last report is recent. -/
theorem Recent.of_le
    {earlier later : ℚ}
    (recent : controller.Recent earlier)
    (laterWhole : Arithmetic.Whole later)
    (earlier_le : earlier ≤ later)
    (later_le : later ≤ controller.position) :
    controller.Recent later where
  whole := laterWhole
  le_position := later_le
  near := by linarith [recent.near]

theorem Ideal.answered_le
    (ideal : controller.Ideal)
    {probe : Probe ℚ}
    (member : probe ∈ controller.pending) :
    controller.answered.position ≤ probe.position :=
  List.rel_of_pairwise_cons ideal.sorted member

theorem Ideal.recent_pending
    (ideal : controller.Ideal)
    (near : controller.Near)
    {probe : Probe ℚ}
    (member : probe ∈ controller.pending) :
    controller.Recent probe.position :=
  (ideal.recent_answered near).of_le
    (ideal.probes probe (List.mem_cons_of_mem _ member))
    (ideal.answered_le member)
    (ideal.newest probe (List.mem_cons_of_mem _ member))

theorem Ideal.target_eq (ideal : controller.Ideal) :
    controller.target = controller.position - controller.window := by
  unfold target
  rw [ideal.counting, Counting.position_unbounded]

theorem Ideal.recent_target (ideal : controller.Ideal) :
    controller.Recent controller.target := by
  rw [ideal.target_eq]
  exact {
    whole := ideal.position.sub ideal.window.whole
    le_position := by linarith [ideal.window.pos]
    near := by linarith [ideal.window.lt_halfRing] }

/-! ## Distances -/

theorem Ideal.distance_eq
    (ideal : controller.Ideal)
    (later earlier : ℚ) :
    controller.distance later earlier = later - earlier := by
  unfold distance
  rw [ideal.counting, Counting.distance_unbounded]

/-- Forward between recent positions, distances on the ring are those of
totals. -/
theorem Ideal.distance_wrapped
    (ideal : controller.Ideal)
    {later earlier : ℚ}
    (laterRecent : controller.Recent later)
    (earlierRecent : controller.Recent earlier)
    (forward : earlier ≤ later) :
    (controller.renamed .wrapped).distance (Arithmetic.residue later)
        (Arithmetic.residue earlier) =
      controller.distance later earlier := by
  have near : later - earlier < ringSize := by
    linarith [laterRecent.le_position, earlierRecent.near,
      Counting.halfRing_lt_ringSize]
  rw [ideal.distance_eq]
  exact Counting.distance_residue_of_near laterRecent.whole earlierRecent.whole
    forward near

/-- Which of two recent positions is ahead is the same on the ring. -/
theorem Ideal.isAfter_wrapped
    (ideal : controller.Ideal)
    {first second : ℚ}
    (firstRecent : controller.Recent first)
    (secondRecent : controller.Recent second) :
    (controller.renamed .wrapped).isAfter (Arithmetic.residue first)
        (Arithmetic.residue second) =
      controller.isAfter first second := by
  have ahead_lt : first - second < Counting.halfRing := by
    linarith [firstRecent.le_position, secondRecent.near]
  have behind_lt : second - first < Counting.halfRing := by
    linarith [firstRecent.near, secondRecent.le_position]
  unfold isAfter
  rw [ideal.counting]
  exact Counting.isAfter_residue firstRecent.whole secondRecent.whole ahead_lt
    behind_lt

/-! ## Bytes on their way -/

/-- What the peer has reached on the way to the next answer is recent. -/
theorem Ideal.recent_reachedTowards
    (ideal : controller.Ideal)
    (near : controller.Near)
    {next : Probe ℚ}
    (next_mem : next ∈ controller.pending)
    (now base : ℚ) :
    controller.Recent (controller.reachedTowards now base next) := by
  have answeredRecent := ideal.recent_answered near
  have nextRecent := ideal.recent_pending near next_mem
  unfold reachedTowards
  simp only [ideal.distance_eq, ideal.counting, Counting.position_unbounded]
  split
  · exact nextRecent
  · next early =>
      obtain ⟨share_nonneg, share_le⟩ := floor_share_bounds
        (sub_nonneg.mpr (ideal.answered_le next_mem))
        (Time.elapsed_nonneg controller.answeredAt now) (not_le.mp early)
      apply answeredRecent.of_le (answeredRecent.whole.add (.floor _))
      · linarith
      · linarith [nextRecent.le_position]

theorem Ideal.reachedTowards_wrapped
    (ideal : controller.Ideal)
    (near : controller.Near)
    {next : Probe ℚ}
    (next_mem : next ∈ controller.pending)
    (now base : ℚ) :
    (controller.renamed .wrapped).reachedTowards now base
        (next.renamed .wrapped) =
      Arithmetic.residue (controller.reachedTowards now base next) := by
  have answeredRecent := ideal.recent_answered near
  have span_eq := ideal.distance_wrapped (ideal.recent_pending near next_mem)
    answeredRecent (ideal.answered_le next_mem)
  have sum_eq (share : ℚ) :
      Arithmetic.residue (Arithmetic.residue controller.answered.position +
          Arithmetic.floor share) =
        Arithmetic.residue (controller.answered.position +
          Arithmetic.floor share) :=
    residue_residue_add answeredRecent.whole (.floor share)
  unfold reachedTowards
  simp only [ideal.counting, Counting.position_unbounded]
  rw [apply_ite Arithmetic.residue]
  apply congrArg (ite _ _)
  change Arithmetic.residue (Arithmetic.residue controller.answered.position +
    Arithmetic.floor ((controller.renamed .wrapped).distance
      (Arithmetic.residue next.position)
      (Arithmetic.residue controller.answered.position) * _ / _)) = _
  rw [span_eq, sum_eq]
  rfl

/-- The buffers never drain more than the surplus that they held. -/
theorem Ideal.reachedByDraining_bounds
    (ideal : controller.Ideal)
    (now : ℚ)
    {base : ℚ}
    (known : controller.base = some base) :
    Arithmetic.Whole (controller.reachedByDraining now base) ∧
      controller.reachedByDraining now base ≤ controller.position ∧
      controller.position - controller.extra ≤
        controller.reachedByDraining now base := by
  have received_nonneg := ideal.receivedSince_nonneg known now
  have sumWhole := (ideal.position.sub ideal.extra).add
    ((controller.whole_receivedSince base now).smaller ideal.extra)
  unfold reachedByDraining
  rw [ideal.counting, Counting.position_unbounded]
  rw [smaller_exact] at sumWhole ⊢
  refine ⟨sumWhole, ?_, ?_⟩
  · linarith [min_le_right (controller.receivedSince base now) controller.extra]
  · linarith [le_min received_nonneg ideal.extra_nonneg]

theorem Ideal.reachedByDraining_wrapped
    (ideal : controller.Ideal)
    (now base : ℚ) :
    (controller.renamed .wrapped).reachedByDraining now base =
      Arithmetic.residue (controller.reachedByDraining now base) := by
  have restWhole := ((controller.whole_receivedSince base now).smaller
    ideal.extra).sub ideal.extra
  unfold reachedByDraining
  rw [ideal.counting, Counting.position_unbounded]
  change Arithmetic.residue (Arithmetic.residue controller.position -
    controller.extra + Arithmetic.smaller (controller.receivedSince base now)
      controller.extra) = _
  rw [← add_sub_right_comm, ← add_sub_right_comm, add_sub_assoc, add_sub_assoc]
  exact residue_residue_add ideal.position restWhole

/-- The bytes on their way are the same on the ring. -/
theorem Ideal.inFlight_wrapped
    (ideal : controller.Ideal)
    (near : controller.Near)
    (now : ℚ) :
    (controller.renamed .wrapped).inFlight now = controller.inFlight now := by
  have positionRecent := ideal.recent_position
  have answeredRecent := ideal.recent_answered near
  have nothing_eq : (Arithmetic.residue controller.position ==
        Arithmetic.residue controller.answered.position) =
      (controller.position == controller.answered.position) :=
    Counting.residue_beq_residue ideal.position answeredRecent.whole
      answeredRecent.le_position
      (near.unanswered.trans Counting.halfRing_lt_ringSize)
  unfold inFlight
  simp only [position_renamed, answered_renamed, base_renamed, pending_renamed,
    Probe.position_renamed, Naming.position_wrapped, nothing_eq]
  apply congrArg (ite _ _)
  cases known : controller.base with
  | none =>
      cases pending : controller.pending with
      | nil => rfl
      | cons next rest =>
          have nextRecent : controller.Recent next.position :=
            ideal.recent_pending near (by simp [pending])
          exact ideal.distance_wrapped positionRecent nextRecent
            nextRecent.le_position
  | some base =>
      cases pending : controller.pending with
      | nil =>
          obtain ⟨reachedWhole, reached_le, le_reached⟩ :=
            ideal.reachedByDraining_bounds now known
          simp only [List.map_nil]
          rw [ideal.reachedByDraining_wrapped, ideal.distance_eq]
          exact Counting.distance_residue_of_near ideal.position reachedWhole
            reached_le (by linarith [near.extra])
      | cons next rest =>
          have next_mem : next ∈ controller.pending := by simp [pending]
          have reachedRecent :=
            ideal.recent_reachedTowards near next_mem now base
          simp only [List.map_cons]
          rw [ideal.reachedTowards_wrapped near next_mem]
          exact ideal.distance_wrapped positionRecent reachedRecent
            reachedRecent.le_position

theorem Ideal.isCongested_wrapped
    (ideal : controller.Ideal)
    (near : controller.Near)
    (now : ℚ) :
    (controller.renamed .wrapped).isCongested now =
      controller.isCongested now := by
  unfold isCongested
  rw [ideal.inFlight_wrapped near]
  rfl

/-! ## Time until the window has room -/

theorem Ideal.target_wrapped (ideal : controller.Ideal) :
    (controller.renamed .wrapped).target =
      Arithmetic.residue controller.target := by
  rw [ideal.target_eq]
  exact residue_residue_sub ideal.position ideal.window.whole

theorem Ideal.shareBeyondTarget_wrapped
    (ideal : controller.Ideal)
    (interval : ℚ)
    {position previous : ℚ}
    (positionRecent : controller.Recent position)
    (previousRecent : controller.Recent previous)
    (target_le : controller.target ≤ position)
    (previous_le : previous ≤ position) :
    (controller.renamed .wrapped).shareBeyondTarget interval
        (Arithmetic.residue position) (Arithmetic.residue previous) =
      controller.shareBeyondTarget interval position previous := by
  unfold shareBeyondTarget
  rw [ideal.target_wrapped,
    ideal.distance_wrapped positionRecent ideal.recent_target target_le,
    ideal.distance_wrapped positionRecent previousRecent previous_le]

/-- The expected time until the window has room is the same on the ring.  It is
looked for among probes in order. -/
theorem Ideal.arrival_wrapped
    (ideal : controller.Ideal)
    (base : ℚ)
    {previous : Probe ℚ}
    (waited : ℚ)
    {probes : List (Probe ℚ)}
    (recent : ∀ probe ∈ previous :: probes, controller.Recent probe.position)
    (sorted : (previous :: probes).Pairwise
      fun earlier later => earlier.position ≤ later.position) :
    (controller.renamed .wrapped).arrival base (previous.renamed .wrapped) waited
        (probes.map (Probe.renamed .wrapped)) =
      controller.arrival base previous waited probes := by
  have previousRecent := recent previous List.mem_cons_self
  induction probes generalizing previous waited with
  | nil =>
      have share_eq (interval : ℚ) :=
        ideal.shareBeyondTarget_wrapped interval ideal.recent_position
          previousRecent ideal.recent_target.le_position
          previousRecent.le_position
      simp only [List.map_nil, arrival, Probe.position_renamed,
        position_renamed, Naming.position_wrapped, share_eq]
      rfl
  | cons probe rest inductionHypothesis =>
      have probeRecent := recent probe (by simp)
      have later := inductionHypothesis
        (waited + controller.interval base previous probe)
        (fun other member => recent other (List.mem_cons_of_mem _ member))
        sorted.of_cons probeRecent
      have isAfter_eq :=
        ideal.isAfter_wrapped probeRecent ideal.recent_target
      simp only [List.map_cons, arrival, Probe.position_renamed,
        Naming.position_wrapped, ideal.target_wrapped, isAfter_eq]
      split
      · next after =>
          unfold isAfter at after
          rw [ideal.counting, Counting.isAfter_unbounded, decide_eq_true_eq]
            at after
          rw [ideal.shareBeyondTarget_wrapped _ probeRecent previousRecent
            after.le (List.rel_of_pairwise_cons sorted (by simp))]
          rfl
      · exact later

/-- The wait is the same on the ring, whatever the surplus. -/
theorem Ideal.untilUncongested_of_recent
    (ideal : controller.Ideal)
    (recent : ∀ probe ∈ controller.answered :: controller.pending,
      controller.Recent probe.position)
    (now : ℚ) :
    (controller.renamed .wrapped).untilUncongested now =
      controller.untilUncongested now := by
  have isAfter_eq :=
    ideal.isAfter_wrapped (recent _ List.mem_cons_self) ideal.recent_target
  have arrival_eq (base : ℚ) :=
    ideal.arrival_wrapped base 0 recent ideal.sorted
  unfold untilUncongested
  simp only [answered_renamed, Probe.position_renamed, base_renamed,
    pending_renamed, Naming.position_wrapped, ideal.target_wrapped, isAfter_eq,
    arrival_eq]
  rfl

theorem Ideal.untilUncongested_wrapped
    (ideal : controller.Ideal)
    (near : controller.Near)
    (now : ℚ) :
    (controller.renamed .wrapped).untilUncongested now =
      controller.untilUncongested now := by
  apply ideal.untilUncongested_of_recent
  exact List.forall_mem_cons.mpr ⟨ideal.recent_answered near,
    fun probe member => ideal.recent_pending near member⟩

/-- Everything that a controller can be asked for is the same on the ring. -/
theorem Ideal.readout_wrapped
    (ideal : controller.Ideal)
    (near : controller.Near)
    (now : ℚ) :
    (controller.renamed .wrapped).readout now = controller.readout now := by
  unfold readout
  rw [ideal.inFlight_wrapped near, ideal.isCongested_wrapped near,
    ideal.untilUncongested_wrapped near, pending_renamed, List.length_map]
  rfl

end Estimates

/-! ## Reports -/

section Steps

variable {controller : Controller ℚ}

theorem Ideal.recordProgress
    (ideal : controller.Ideal)
    (now : ℚ)
    {total : ℚ}
    (totalWhole : Arithmetic.Whole total)
    (position_le : controller.position ≤ total) :
    (controller.recordProgress now total).state.Ideal := by
  have positionWhole :
      Arithmetic.Whole (controller.config.counting.position total) := by
    rw [ideal.counting]
    exact totalWhole
  exact { ideal.toWhole.recordProgress now positionWhole with
    counting := by rw [config_recordProgress, ideal.counting]
    sorted := by
      rw [answered_recordProgress, pending_recordProgress]
      exact ideal.sorted
    newest := by
      rw [answered_recordProgress, pending_recordProgress,
        position_recordProgress, ideal.counting]
      exact fun probe member => (ideal.newest probe member).trans position_le }

theorem Ideal.probeSent (ideal : controller.Ideal) (now : ℚ) :
    (controller.probeSent now).state.Ideal := by
  have whole := ideal.toWhole.probeSent now
  rw [state_probeSent] at whole ⊢
  exact { whole with
    counting := ideal.counting
    sorted := by
      rw [← List.cons_append, List.pairwise_append]
      refine ⟨ideal.sorted, List.pairwise_singleton _ _, ?_⟩
      intro earlier earlier_mem last last_mem
      obtain rfl := List.mem_singleton.mp last_mem
      exact ideal.newest earlier earlier_mem
    newest := by
      rw [← List.cons_append, List.forall_mem_append]
      exact ⟨ideal.newest, List.forall_mem_singleton.mpr le_rfl⟩ }

theorem Ideal.probeAnswered (ideal : controller.Ideal) (now : ℚ) :
    (controller.probeAnswered now).state.Ideal := by
  cases pending : controller.pending with
  | nil =>
      rw [probeAnswered_of_stray pending]
      exact ideal
  | cons probe rest =>
      have sorted := ideal.sorted
      have newest := ideal.newest
      rw [pending] at sorted newest
      exact { ideal.toWhole.probeAnswered now with
        counting := by rw [config_probeAnswered, ideal.counting]
        sorted := by
          rw [answered_probeAnswered, pending_probeAnswered, pending]
          exact sorted.of_cons
        newest := by
          rw [answered_probeAnswered, pending_probeAnswered,
            position_probeAnswered, pending]
          exact fun other member =>
            newest other (List.mem_cons_of_mem _ member) }

/-- Reports of totals that do not decrease keep a controller ideal. -/
theorem Ideal.perform
    (ideal : controller.Ideal)
    (now : ℚ)
    {action : Action ℕ}
    (position_le : ∀ total, action = .recordProgress total →
      controller.position ≤ total) :
    (controller.perform now (action.map Nat.cast)).state.Ideal := by
  cases action with
  | recordProgress total =>
      exact ideal.recordProgress now (.natCast total) (position_le total rfl)
  | probeSent => exact ideal.probeSent now
  | probeAnswered => exact ideal.probeAnswered now

/-- A report of a total that has been reduced to the ring is the same report of
the total itself, with all positions reduced. -/
theorem Ideal.recordProgress_wrapped
    (ideal : controller.Ideal)
    (now : ℚ)
    {total : ℕ}
    (position_le : controller.position ≤ total)
    (near : (controller.recordProgress now total).state.Near) :
    (controller.renamed .wrapped).recordProgress now
        ((total % ringSize : ℕ) : ℚ) =
      (controller.recordProgress now total).renamed .wrapped := by
  have residue_eq : Arithmetic.residue ((total % ringSize : ℕ) : ℚ) =
      Arithmetic.residue (total : ℚ) := by
    rw [residue_natCast, residue_natCast, Nat.mod_mod]
  have unanswered := near.unanswered
  rw [position_recordProgress, answered_recordProgress, ideal.counting,
    Counting.position_unbounded] at unanswered
  have answered_le := ideal.newest _ List.mem_cons_self
  have added_eq : (controller.renamed .wrapped).added
      ((total % ringSize : ℕ) : ℚ) = controller.added (total : ℚ) := by
    change Counting.wrapping.distance (Arithmetic.residue _)
      (Arithmetic.residue _) = controller.distance _ _
    rw [residue_eq, ideal.distance_eq, ideal.counting,
      Counting.position_unbounded]
    exact Counting.distance_residue_of_near (.natCast total) ideal.position
      position_le (by linarith [Counting.halfRing_lt_ringSize])
  have position_eq :
      Counting.wrapping.position ((total % ringSize : ℕ) : ℚ) =
        Arithmetic.residue (controller.config.counting.position (total : ℚ)) := by
    rw [ideal.counting]
    exact residue_eq
  exact recordProgress_renamed Naming.steady_wrapped controller now position_eq
    added_eq

/-- Every report commutes with reducing the positions. -/
theorem Ideal.perform_wrapped
    (ideal : controller.Ideal)
    (now : ℚ)
    {action : Action ℕ}
    (position_le : ∀ total, action = .recordProgress total →
      controller.position ≤ total)
    (near : controller.Near)
    (stillNear : (controller.perform now (action.map Nat.cast)).state.Near) :
    (controller.renamed .wrapped).perform now
        ((action.map (· % ringSize)).map Nat.cast) =
      (controller.perform now (action.map Nat.cast)).renamed .wrapped := by
  cases action with
  | recordProgress total =>
      exact ideal.recordProgress_wrapped now (position_le total rfl) stillNear
  | probeSent =>
      exact probeSent_renamed Naming.steady_wrapped controller now
        (ideal.isCongested_wrapped near now)
  | probeAnswered =>
      apply probeAnswered_renamed Naming.steady_wrapped
      intro probe rest _
      exact sample_renamed _ now (.inl rfl)

end Steps

/-! ## Histories -/

/-- A history of totals, as an exact controller takes it. -/
def exactly (history : List (ℚ × Action ℕ)) : List (ℚ × Action ℚ) :=
  history.map fun step => (step.1, step.2.map Nat.cast)

/-- A history of totals as the ring counts them. -/
def onRing (history : List (ℚ × Action ℕ)) : List (ℚ × Action ℕ) :=
  history.map fun step => (step.1, step.2.map (· % ringSize))

/-- The totals of a history never decrease, from the position on. -/
structure Following
    (controller : Controller ℚ)
    (history : List (ℚ × Action ℕ)) : Prop where
  /-- No total is behind the position. -/
  position_le : ∀ total ∈ totals history, controller.position ≤ (total : ℚ)
  /-- The totals never decrease. -/
  nondecreasing : (totals history).Pairwise (· ≤ ·)

section Histories

variable {controller : Controller ℚ}

theorem Following.head
    {now : ℚ}
    {action : Action ℕ}
    {rest : List (ℚ × Action ℕ)}
    (following : controller.Following ((now, action) :: rest)) :
    ∀ total, action = .recordProgress total →
      controller.position ≤ (total : ℚ) := by
  rintro total rfl
  exact following.position_le total List.mem_cons_self

theorem Following.tail
    (counting : controller.config.counting = .unbounded)
    {now : ℚ}
    {action : Action ℕ}
    {rest : List (ℚ × Action ℕ)}
    (following : controller.Following ((now, action) :: rest)) :
    (controller.perform now (action.map Nat.cast)).state.Following rest := by
  obtain ⟨position_le, nondecreasing⟩ := following
  cases action with
  | recordProgress total =>
      obtain ⟨total_le, laterNondecreasing⟩ :=
        List.pairwise_cons.mp nondecreasing
      refine ⟨fun later member => ?_, laterNondecreasing⟩
      change (controller.recordProgress now total).state.position ≤ _
      rw [position_recordProgress, counting, Counting.position_unbounded]
      exact_mod_cast total_le later member
  | probeSent => exact ⟨position_le, nondecreasing⟩
  | probeAnswered =>
      refine ⟨fun later member => ?_, nondecreasing⟩
      change (controller.probeAnswered now).state.position ≤ _
      rw [position_probeAnswered]
      exact position_le later member

/-- Every history commutes with reducing the positions, and it keeps the
controller ideal. -/
theorem Ideal.outcomes_wrapped
    (ideal : controller.Ideal)
    {history : List (ℚ × Action ℕ)}
    (following : controller.Following history)
    (near : ∀ earlier ∈ history.inits,
      (controller.after (exactly earlier)).Near) :
    (controller.renamed .wrapped).outcomes (exactly (onRing history)) =
        (controller.outcomes (exactly history)).map
          (Result.renamed .wrapped) ∧
      ∀ outcome ∈ controller.outcomes (exactly history),
        outcome.state.Ideal ∧ outcome.state.Near := by
  induction history generalizing controller with
  | nil => exact ⟨rfl, by simp [exactly, outcomes]⟩
  | cons step rest inductionHypothesis =>
      obtain ⟨now, action⟩ := step
      rw [List.inits_cons, List.forall_mem_cons, List.forall_mem_map] at near
      obtain ⟨nearNow, nearLater⟩ := near
      have stillNear := nearLater [] ((List.mem_inits _ _).mpr List.nil_prefix)
      have performed := ideal.perform now following.head
      have same := ideal.perform_wrapped now following.head nearNow stillNear
      obtain ⟨laterSame, laterIdeal⟩ := inductionHypothesis performed
        (following.tail ideal.counting) nearLater
      constructor
      · change _ :: _ = _ :: _
        rw [same]
        exact congrArg _ laterSame
      · exact List.forall_mem_cons.mpr ⟨⟨performed, stillNear⟩, laterIdeal⟩

end Histories

/-- The controller with its positions counted in another way. -/
def counted {α : Type} (counting : Counting) (controller : Controller α) :
    Controller α :=
  { controller with config := { controller.config with counting } }

/-- What starts on the ring is ideal once it keeps totals. -/
theorem ideal_counted_fresh
    {config : Config ℚ}
    (accepted : Window.Accepted config.initialWindow)
    (now : ℚ) :
    ((fresh config now).counted .unbounded).Ideal :=
  { whole_fresh accepted now with
    initialWindow := accepted
    counting := rfl
    sorted := List.pairwise_singleton _ _
    newest := List.forall_mem_singleton.mpr le_rfl }

/-- What starts on the ring has nothing to reduce. -/
theorem wrapped_counted_fresh
    {config : Config ℚ}
    (counting : config.counting = .wrapping)
    (now : ℚ) :
    ((fresh config now).counted .unbounded).renamed .wrapped =
      fresh config now := by
  have zero_eq : Arithmetic.residue (0 : ℚ) = 0 :=
    residue_of_onRing .zero le_rfl (by norm_num [ringSize])
  obtain ⟨initialWindow, verifyInvariants, _⟩ := config
  obtain rfl := counting
  simp only [renamed, counted, fresh, Probe.renamed, Naming.wrapped,
    List.map_nil, zero_eq, id]

/-- However often positions wrap, the ring makes no difference.  Take any
controller that was started and any reports of totals that do not decrease, at
any clock readings, and let the bytes without an answer always span less than
half of the ring and the surplus less than all of it.  Then a controller that is
told only the residues of the totals reports the same as one that keeps the
totals themselves, and it answers the same whenever it is asked. -/
theorem agrees_on_ring
    (options : Options ℚ)
    (verifyByDefault : Bool)
    (start : ℚ)
    (ring : Controller ℚ)
    (history : List (ℚ × Action ℕ))
    (started : Controller.start options verifyByDefault start = .ok ring)
    (nondecreasing : (totals history).Pairwise (· ≤ ·))
    (near : ∀ earlier ∈ history.inits,
      ((ring.counted .unbounded).after (exactly earlier)).Near) :
    (∀ now, ring.readout now = (ring.counted .unbounded).readout now) ∧
      List.Forall₂
        (fun onRing ideal =>
          onRing.events = ideal.events ∧ onRing.fault = ideal.fault ∧
            ∀ now, onRing.state.readout now = ideal.state.readout now)
        (ring.outcomes (exactly (onRing history)))
        ((ring.counted .unbounded).outcomes (exactly history)) := by
  obtain ⟨config, rfl, accepted, counting⟩ := start_ok started
  have ideal := ideal_counted_fresh accepted start
  have wrapped_eq := wrapped_counted_fresh counting start
  have following : ((fresh config start).counted .unbounded).Following
      history :=
    ⟨fun total _ => Nat.cast_nonneg total, nondecreasing⟩
  obtain ⟨same, later⟩ := ideal.outcomes_wrapped following near
  rw [wrapped_eq] at same
  constructor
  · intro now
    have nearNow := near [] ((List.mem_inits _ _).mpr List.nil_prefix)
    rw [← ideal.readout_wrapped nearNow, wrapped_eq]
  · rw [same, List.forall₂_map_left_iff, List.forall₂_same]
    intro outcome member
    obtain ⟨stillIdeal, stillNear⟩ := later outcome member
    exact ⟨List.map_id _, rfl,
      fun now => stillIdeal.readout_wrapped stillNear now⟩

/-- Two billion bytes before every probe and a few more after it, again and
again, until the ring has wrapped three times. -/
def farAround : List (ℚ × Action ℕ) :=
  (List.range 7).flatMap fun turn : ℕ =>
    let reading : ℚ := 3000000 * turn
    let total : ℕ := 2000000000 * turn
    [(reading, .recordProgress (total + 2000000000)),
      (reading + 5, .probeSent),
      (reading + 10, .recordProgress (total + 2000020000)),
      (reading + 25, .probeAnswered)]

/-- What both are asked while they wait for the last answer, past the third turn of
the ring. -/
def pastThirdTurn : Readout ℚ where
  inFlight := 28667
  congested := true
  extra := 10170
  wait := some 28
  window := 16384
  base := some 20
  pending := 1

theorem agrees_on_ring_farAround :
    let ring := exactDefault.after (exactly (onRing farAround.dropLast))
    let ideal := (exactDefault.counted .unbounded).after
      (exactly farAround.dropLast)
    (∃ total ∈ totals farAround, 3 * ringSize < total) ∧
      Controller.start ⟨none, none⟩ true (0 : ℚ) = .ok exactDefault ∧
      List.Forall₂
        (fun onRing ideal => ∀ now,
          onRing.state.readout now = ideal.state.readout now)
        (exactDefault.outcomes (exactly (onRing farAround)))
        ((exactDefault.counted .unbounded).outcomes (exactly farAround)) ∧
      (ring.position = 1115118112 ∧ ideal.position = 14000020000) ∧
      ring.readout 18000012 = pastThirdTurn ∧
      ideal.readout 18000012 = pastThirdTurn := by
  intro ring ideal
  obtain ⟨_, agree⟩ := agrees_on_ring ⟨none, none⟩ true 0 exactDefault farAround
    start_exactDefault (by decide +kernel) (by decide +kernel)
  refine ⟨by decide +kernel, start_exactDefault, agree.imp ?_, ?_⟩
  · exact fun onRing ideal same => same.2.2
  · decide +kernel

end Controller
end Backpressure
