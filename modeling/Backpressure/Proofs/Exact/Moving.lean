import Backpressure.Proofs.Controller.Renaming
import Backpressure.Proofs.Exact.Controller

/-!
# Moving positions and clock readings

Only differences matter.  If all positions of a controller move by the same
number of bytes around the ring, and all its clock readings by the same span,
then reports that are moved in the same way have the same outcomes.  The moves
may take any position across the end of the ring; what has to be whole are the
byte counts that positions are compared with.
-/

namespace Backpressure

open Arithmetic

/-- Positions move by a number of bytes around the ring, and clock readings by a
span. -/
def Naming.moved (bytes : ℤ) (span : ℚ) : Naming ℚ where
  config := id
  position := fun position => Arithmetic.residue (position + bytes)
  reading := fun reading => reading + span

theorem Naming.steady_moved (bytes : ℤ) (span : ℚ) :
    (Naming.moved bytes span).Steady where
  initialWindow := fun _ => rfl
  elapsed := fun earlier later => by
    change Time.elapsed (earlier + span) (later + span) = _
    unfold Time.elapsed
    rw [add_sub_add_right_eq_sub]
  less := fun first second => add_lt_add_iff_right span

/-- A whole position on the ring. -/
def RingPlace (position : ℚ) : Prop :=
  ∃ number : ℕ, position = number ∧ number < ringSize

theorem RingPlace.whole
    {position : ℚ}
    (place : RingPlace position) :
    Arithmetic.Whole position := by
  obtain ⟨number, rfl, _⟩ := place
  exact .natCast number

theorem ringPlace_residue (value : ℚ) :
    RingPlace (Arithmetic.residue value) := by
  obtain ⟨nonneg, bounded⟩ := ringResidue_bounds value
  obtain ⟨number, number_eq⟩ := Int.eq_ofNat_of_zero_le nonneg
  refine ⟨number, ?_, by unfold ringSize; omega⟩
  change ((ringResidue value : ℤ) : ℚ) = _
  rw [number_eq, Int.cast_natCast]

/-! ## Single positions -/

section Positions

variable (bytes : ℤ) (span : ℚ) {first second : ℚ}

/-- A whole number of bytes may be added before a position moves, or after. -/
theorem Naming.position_moved_add
    (firstWhole : Arithmetic.Whole first)
    (secondWhole : Arithmetic.Whole second) :
    Arithmetic.residue ((Naming.moved bytes span).position first + second) =
      (Naming.moved bytes span).position
        (Arithmetic.residue (first + second)) := by
  have bytesWhole : Arithmetic.Whole (bytes : ℚ) := ⟨bytes, rfl⟩
  change Arithmetic.residue (Arithmetic.residue (first + bytes) + second) =
    Arithmetic.residue (Arithmetic.residue (first + second) + bytes)
  rw [residue_residue_add (firstWhole.add bytesWhole) secondWhole,
    residue_residue_add (firstWhole.add secondWhole) bytesWhole,
    add_right_comm]

/-- Distances do not change when both ends move. -/
theorem Naming.distance_moved
    (firstWhole : Arithmetic.Whole first)
    (secondWhole : Arithmetic.Whole second) :
    Counting.wrapping.distance ((Naming.moved bytes span).position first)
        ((Naming.moved bytes span).position second) =
      Counting.wrapping.distance first second := by
  have bytesWhole : Arithmetic.Whole (bytes : ℚ) := ⟨bytes, rfl⟩
  refine (Counting.distance_residue (firstWhole.add bytesWhole)
    (secondWhole.add bytesWhole)).trans ?_
  rw [add_sub_add_right_eq_sub]
  rfl

/-- Which of two positions is ahead does not change, either. -/
theorem Naming.isAfter_moved
    (firstWhole : Arithmetic.Whole first)
    (secondWhole : Arithmetic.Whole second) :
    Counting.wrapping.isAfter ((Naming.moved bytes span).position first)
        ((Naming.moved bytes span).position second) =
      Counting.wrapping.isAfter first second := by
  unfold Counting.isAfter
  simp only [Naming.distance_moved bytes span firstWhole secondWhole]

/-- Different positions on the ring stay different. -/
theorem Naming.beq_moved
    (firstPlace : RingPlace first)
    (secondPlace : RingPlace second) :
    ((Naming.moved bytes span).position first ==
        (Naming.moved bytes span).position second) =
      (first == second) := by
  obtain ⟨first, rfl, first_lt⟩ := firstPlace
  obtain ⟨second, rfl, second_lt⟩ := secondPlace
  have moved_eq (number : ℕ) :
      (Naming.moved bytes span).position (number : ℚ) =
        (((number + bytes) % ringSize : ℤ) : ℚ) := by
    rw [← residue_intCast]
    push_cast
    rfl
  rw [moved_eq, moved_eq, Bool.eq_iff_iff, beq_iff_eq, beq_iff_eq]
  norm_cast
  unfold ringSize at *
  omega

end Positions

/-! ## Controllers on the ring -/

namespace Controller

/-- Positions lie on the ring, and byte counts are whole. -/
structure Placed (controller : Controller ℚ) : Prop where
  /-- Positions are counted on the ring. -/
  counting : controller.config.counting = .wrapping
  /-- The window to start with is whole. -/
  initialWindow : Arithmetic.Whole controller.config.initialWindow
  /-- So is the window. -/
  window : Arithmetic.Whole controller.window
  /-- So is the surplus. -/
  extra : Arithmetic.Whole controller.extra
  /-- The position lies on the ring. -/
  position : RingPlace controller.position
  /-- So do those of the probes without an answer and of the last answered
  one. -/
  probes : ∀ probe ∈ controller.answered :: controller.pending,
    RingPlace probe.position

section Steps

variable {controller : Controller ℚ}

theorem Placed.answered (placed : controller.Placed) :
    RingPlace controller.answered.position :=
  placed.probes _ List.mem_cons_self

theorem Placed.pending
    (placed : controller.Placed)
    {probe : Probe ℚ}
    (member : probe ∈ controller.pending) :
    RingPlace probe.position :=
  placed.probes probe (List.mem_cons_of_mem _ member)

theorem Placed.checked
    (placed : controller.Placed)
    (now total : ℚ) :
    (controller.checked now total).Placed := by
  have noted_eq := controller.noteActivity_eq now (controller.added total)
  obtain ⟨_, reset⟩ | ⟨_, kept⟩ := controller.checked_cases now total
  · rw [reset, noted_eq]
    exact { placed with window := placed.initialWindow.smaller placed.window }
  · rw [kept, noted_eq]
    exact { placed with }

theorem Placed.recordProgress
    (placed : controller.Placed)
    (now total : ℚ) :
    (controller.recordProgress now total).state.Placed := by
  have checked := placed.checked now total
  have addedWhole : Arithmetic.Whole (controller.added total) := by
    unfold added distance
    rw [placed.counting]
    exact .residue _
  rw [state_recordProgress]
  exact { checked with
    extra := by
      unfold surplusAfter
      cases (controller.checked now total).base with
      | none => exact checked.extra
      | some base =>
          exact .larger .zero ((checked.extra.add addedWhole).sub (.floor _))
    position := by
      rw [placed.counting]
      exact ringPlace_residue total }

theorem Placed.probeSent
    (placed : controller.Placed)
    (now : ℚ) :
    (controller.probeSent now).state.Placed := by
  rw [state_probeSent]
  exact { placed with
    probes := by
      rw [← List.cons_append, List.forall_mem_append]
      exact ⟨placed.probes, List.forall_mem_singleton.mpr placed.position⟩ }

theorem Placed.probeAnswered
    (placed : controller.Placed)
    (now : ℚ) :
    (controller.probeAnswered now).state.Placed := by
  obtain ⟨_, window, _, _, _, _, _, state_eq, window_eq⟩ :=
    controller.state_probeAnswered now
  rw [state_eq]
  refine { placed with window := ?_, probes := ?_ }
  · obtain rfl | ⟨measurement, rfl⟩ := window_eq
    · exact placed.window
    · exact (Window.accepted_next placed.window measurement).whole
  · intro probe member
    apply placed.probes
    cases pending : controller.pending with
    | nil => simpa [pending] using member
    | cons next rest =>
        simp only [pending, List.head?_cons, Option.getD_some, List.tail_cons]
          at member
        exact List.mem_cons_of_mem _ member

/-- Positions stay on the ring and byte counts whole, whatever is reported. -/
theorem Placed.perform
    (placed : controller.Placed)
    (now : ℚ)
    (action : Action ℚ) :
    (controller.perform now action).state.Placed := by
  cases action with
  | recordProgress total => exact placed.recordProgress now total
  | probeSent => exact placed.probeSent now
  | probeAnswered => exact placed.probeAnswered now

end Steps

section Estimates

variable {controller : Controller ℚ} (bytes : ℤ) (span : ℚ)

/-! ## Bytes on their way -/

/-- Intervals depend only on how far apart in time their ends are. -/
theorem bufferingInterval_moved
    (window base : ℚ)
    (origin : Probe ℚ)
    (sentAt extra : ℚ) :
    Buffering.interval window base (origin.renamed (.moved bytes span))
        ((Naming.moved bytes span).reading sentAt) extra =
      Buffering.interval window base origin sentAt extra := by
  have elapsed_eq := (Naming.steady_moved bytes span).elapsed origin.sentAt
    sentAt
  unfold Buffering.interval Probe.renamed
  simp only [elapsed_eq]

theorem interval_moved
    (controller : Controller ℚ)
    (base : ℚ)
    (origin probe : Probe ℚ) :
    (controller.renamed (.moved bytes span)).interval base
        (origin.renamed (.moved bytes span))
        (probe.renamed (.moved bytes span)) =
      controller.interval base origin probe :=
  bufferingInterval_moved bytes span controller.window base origin probe.sentAt
    probe.extra

theorem Placed.distance_moved
    (placed : controller.Placed)
    {later earlier : ℚ}
    (laterPlace : RingPlace later)
    (earlierPlace : RingPlace earlier) :
    (controller.renamed (.moved bytes span)).distance
        ((Naming.moved bytes span).position later)
        ((Naming.moved bytes span).position earlier) =
      controller.distance later earlier := by
  change controller.config.counting.distance _ _ =
    controller.config.counting.distance _ _
  rw [placed.counting]
  exact Naming.distance_moved bytes span laterPlace.whole earlierPlace.whole

theorem Placed.ringPlace_reachedTowards
    (placed : controller.Placed)
    {next : Probe ℚ}
    (next_mem : next ∈ controller.pending)
    (now base : ℚ) :
    RingPlace (controller.reachedTowards now base next) := by
  unfold reachedTowards
  simp only [placed.counting]
  split
  · exact placed.pending next_mem
  · exact ringPlace_residue _

/-- What the peer has reached on the way to the next answer moves along. -/
theorem Placed.reachedTowards_moved
    (placed : controller.Placed)
    {next : Probe ℚ}
    (next_mem : next ∈ controller.pending)
    (now base : ℚ) :
    (controller.renamed (.moved bytes span)).reachedTowards
        ((Naming.moved bytes span).reading now) base
        (next.renamed (.moved bytes span)) =
      (Naming.moved bytes span).position
        (controller.reachedTowards now base next) := by
  have elapsed_eq : Time.elapsed
        (controller.renamed (.moved bytes span)).answeredAt
        ((Naming.moved bytes span).reading now) =
      Time.elapsed controller.answeredAt now :=
    (Naming.steady_moved bytes span).elapsed _ _
  have span_eq := placed.distance_moved bytes span (placed.pending next_mem)
    placed.answered
  unfold reachedTowards
  simp only [answered_renamed, Probe.position_renamed, interval_moved,
    elapsed_eq, span_eq]
  split
  · rfl
  · change controller.config.counting.position _ =
      (Naming.moved bytes span).position
        (controller.config.counting.position _)
    rw [placed.counting]
    exact Naming.position_moved_add bytes span placed.answered.whole (.floor _)

/-- So does what it has reached by draining. -/
theorem Placed.reachedByDraining_moved
    (placed : controller.Placed)
    (now base : ℚ) :
    (controller.renamed (.moved bytes span)).reachedByDraining
        ((Naming.moved bytes span).reading now) base =
      (Naming.moved bytes span).position
        (controller.reachedByDraining now base) := by
  have elapsed_eq : Time.elapsed
        (controller.renamed (.moved bytes span)).updatedAt
        ((Naming.moved bytes span).reading now) =
      Time.elapsed controller.updatedAt now :=
    (Naming.steady_moved bytes span).elapsed _ _
  have received_eq : (controller.renamed (.moved bytes span)).receivedSince base
        ((Naming.moved bytes span).reading now) =
      controller.receivedSince base now := by
    unfold receivedSince
    simp only [elapsed_eq]
    rfl
  have restWhole := ((controller.whole_receivedSince base now).smaller
    placed.extra).sub placed.extra
  unfold reachedByDraining
  rw [received_eq]
  change controller.config.counting.position
      ((Naming.moved bytes span).position controller.position -
        controller.extra + _) =
    (Naming.moved bytes span).position (controller.config.counting.position _)
  rw [placed.counting, ← add_sub_right_comm, ← add_sub_right_comm,
    add_sub_assoc, add_sub_assoc]
  exact Naming.position_moved_add bytes span placed.position.whole restWhole

theorem Placed.ringPlace_reachedByDraining
    (placed : controller.Placed)
    (now base : ℚ) :
    RingPlace (controller.reachedByDraining now base) := by
  unfold reachedByDraining
  rw [placed.counting]
  exact ringPlace_residue _

/-- The bytes on their way are the same after the move. -/
theorem Placed.inFlight_moved
    (placed : controller.Placed)
    (now : ℚ) :
    (controller.renamed (.moved bytes span)).inFlight
        ((Naming.moved bytes span).reading now) =
      controller.inFlight now := by
  have nothing_eq :=
    Naming.beq_moved bytes span placed.position placed.answered
  unfold inFlight
  simp only [position_renamed, answered_renamed, base_renamed, pending_renamed,
    Probe.position_renamed, nothing_eq]
  apply congrArg (ite _ _)
  cases known : controller.base with
  | none =>
      cases pending : controller.pending with
      | nil => rfl
      | cons next rest =>
          exact placed.distance_moved bytes span placed.position
            (placed.pending (by simp [pending]))
  | some base =>
      cases pending : controller.pending with
      | nil =>
          simp only [List.map_nil]
          rw [placed.reachedByDraining_moved]
          exact placed.distance_moved bytes span placed.position
            (placed.ringPlace_reachedByDraining now base)
      | cons next rest =>
          have next_mem : next ∈ controller.pending := by simp [pending]
          simp only [List.map_cons]
          rw [placed.reachedTowards_moved bytes span next_mem]
          exact placed.distance_moved bytes span placed.position
            (placed.ringPlace_reachedTowards next_mem now base)

theorem Placed.isCongested_moved
    (placed : controller.Placed)
    (now : ℚ) :
    (controller.renamed (.moved bytes span)).isCongested
        ((Naming.moved bytes span).reading now) =
      controller.isCongested now := by
  unfold isCongested
  rw [placed.inFlight_moved]
  rfl

/-! ## Time until the window has room -/

theorem Placed.ringPlace_target (placed : controller.Placed) :
    RingPlace controller.target := by
  unfold target
  rw [placed.counting]
  exact ringPlace_residue _

theorem Placed.target_moved (placed : controller.Placed) :
    (controller.renamed (.moved bytes span)).target =
      (Naming.moved bytes span).position controller.target := by
  have windowWhole : Arithmetic.Whole (-controller.window) := by
    rw [← zero_sub]
    exact Whole.zero.sub placed.window
  change controller.config.counting.position _ =
    (Naming.moved bytes span).position (controller.config.counting.position _)
  rw [placed.counting, sub_eq_add_neg, sub_eq_add_neg]
  exact Naming.position_moved_add bytes span placed.position.whole windowWhole

theorem Placed.isAfter_target_moved
    (placed : controller.Placed)
    {position : ℚ}
    (place : RingPlace position) :
    (controller.renamed (.moved bytes span)).isAfter
        ((Naming.moved bytes span).position position)
        (controller.renamed (.moved bytes span)).target =
      controller.isAfter position controller.target := by
  rw [placed.target_moved]
  change controller.config.counting.isAfter _ _ =
    controller.config.counting.isAfter _ _
  rw [placed.counting]
  exact Naming.isAfter_moved bytes span place.whole
    placed.ringPlace_target.whole

theorem Placed.shareBeyondTarget_moved
    (placed : controller.Placed)
    (interval : ℚ)
    {position previous : ℚ}
    (positionPlace : RingPlace position)
    (previousPlace : RingPlace previous) :
    (controller.renamed (.moved bytes span)).shareBeyondTarget interval
        ((Naming.moved bytes span).position position)
        ((Naming.moved bytes span).position previous) =
      controller.shareBeyondTarget interval position previous := by
  unfold shareBeyondTarget
  rw [placed.target_moved,
    placed.distance_moved bytes span positionPlace placed.ringPlace_target,
    placed.distance_moved bytes span positionPlace previousPlace]

/-- The expected time until the window has room is the same after the move. -/
theorem Placed.arrival_moved
    (placed : controller.Placed)
    (base : ℚ)
    {previous : Probe ℚ}
    (waited : ℚ)
    {probes : List (Probe ℚ)}
    (places : ∀ probe ∈ previous :: probes, RingPlace probe.position) :
    (controller.renamed (.moved bytes span)).arrival base
        (previous.renamed (.moved bytes span)) waited
        (probes.map (Probe.renamed (.moved bytes span))) =
      controller.arrival base previous waited probes := by
  induction probes generalizing previous waited with
  | nil =>
      have interval_eq : Buffering.interval
            (controller.renamed (.moved bytes span)).window base
            (previous.renamed (.moved bytes span))
            (controller.renamed (.moved bytes span)).updatedAt
            (controller.renamed (.moved bytes span)).extra =
          Buffering.interval controller.window base previous
            controller.updatedAt controller.extra :=
        bufferingInterval_moved bytes span _ base previous _ _
      have share_eq (interval : ℚ) := placed.shareBeyondTarget_moved bytes span
        interval placed.position (places previous List.mem_cons_self)
      simp only [List.map_nil, arrival, Probe.position_renamed,
        position_renamed, interval_eq, share_eq]
  | cons probe rest inductionHypothesis =>
      obtain ⟨previousPlace, laterPlaces⟩ := List.forall_mem_cons.mp places
      have probePlace := laterPlaces probe List.mem_cons_self
      have share_eq (interval : ℚ) := placed.shareBeyondTarget_moved bytes span
        interval probePlace previousPlace
      have isAfter_eq := placed.isAfter_target_moved bytes span probePlace
      have later := inductionHypothesis
        (waited + controller.interval base previous probe) laterPlaces
      simp only [List.map_cons, arrival, Probe.position_renamed,
        interval_moved, isAfter_eq, share_eq, later]

theorem Placed.untilUncongested_moved
    (placed : controller.Placed)
    (now : ℚ) :
    (controller.renamed (.moved bytes span)).untilUncongested
        ((Naming.moved bytes span).reading now) =
      controller.untilUncongested now := by
  have isAfter_eq := placed.isAfter_target_moved bytes span placed.answered
  have elapsed_eq : Time.elapsed
        (controller.renamed (.moved bytes span)).answeredAt
        ((Naming.moved bytes span).reading now) =
      Time.elapsed controller.answeredAt now :=
    (Naming.steady_moved bytes span).elapsed _ _
  have arrival_eq (base : ℚ) :=
    placed.arrival_moved bytes span base 0 placed.probes
  unfold untilUncongested
  simp only [answered_renamed, Probe.position_renamed, base_renamed,
    pending_renamed, isAfter_eq, elapsed_eq, arrival_eq]

/-- Everything that a controller can be asked for is the same after the move. -/
theorem Placed.readout_moved
    (placed : controller.Placed)
    (now : ℚ) :
    (controller.renamed (.moved bytes span)).readout
        ((Naming.moved bytes span).reading now) =
      controller.readout now := by
  unfold readout
  rw [placed.inFlight_moved, placed.isCongested_moved,
    placed.untilUncongested_moved,
    extraNow_renamed (Naming.steady_moved bytes span), pending_renamed,
    List.length_map]
  rfl

end Estimates

/-! ## Histories -/

/-- A history of whole totals, as an exact controller takes it. -/
def wholly (history : List (ℚ × Action ℤ)) : List (ℚ × Action ℚ) :=
  history.map fun step => (step.1, step.2.map Int.cast)

/-- A history with all totals and clock readings moved. -/
def movedBy
    (bytes : ℤ)
    (span : ℚ)
    (history : List (ℚ × Action ℤ)) : List (ℚ × Action ℤ) :=
  history.map fun step => (step.1 + span, step.2.map (· + bytes))

section Histories

variable {controller : Controller ℚ} (bytes : ℤ) (span : ℚ)

theorem Placed.recordProgress_moved
    (placed : controller.Placed)
    (now : ℚ)
    (total : ℤ) :
    (controller.renamed (.moved bytes span)).recordProgress (now + span)
        ((total + bytes : ℤ) : ℚ) =
      (controller.recordProgress now total).renamed (.moved bytes span) := by
  have totalWhole : Arithmetic.Whole (total : ℚ) := ⟨total, rfl⟩
  have position_eq :
      controller.config.counting.position ((total + bytes : ℤ) : ℚ) =
        (Naming.moved bytes span).position
          (controller.config.counting.position (total : ℚ)) := by
    rw [placed.counting, Int.cast_add]
    exact (residue_residue_add totalWhole ⟨bytes, rfl⟩).symm
  have added_eq : (controller.renamed (.moved bytes span)).added
      ((total + bytes : ℤ) : ℚ) = controller.added (total : ℚ) := by
    have newPlace :
        RingPlace (controller.config.counting.position (total : ℚ)) := by
      rw [placed.counting]
      exact ringPlace_residue _
    have distance_eq :=
      placed.distance_moved bytes span newPlace placed.position
    rw [← position_eq] at distance_eq
    exact distance_eq
  exact recordProgress_renamed (Naming.steady_moved bytes span) controller now
    position_eq added_eq

/-- Every report commutes with the move. -/
theorem Placed.perform_moved
    (placed : controller.Placed)
    (now : ℚ)
    (action : Action ℤ) :
    (controller.renamed (.moved bytes span)).perform (now + span)
        ((action.map (· + bytes)).map Int.cast) =
      (controller.perform now (action.map Int.cast)).renamed
        (.moved bytes span) := by
  have steady := Naming.steady_moved bytes span
  cases action with
  | recordProgress total => exact placed.recordProgress_moved bytes span now total
  | probeSent =>
      exact probeSent_renamed steady controller now
        (placed.isCongested_moved bytes span now)
  | probeAnswered =>
      apply probeAnswered_renamed steady
      intro probe rest _
      exact sample_renamed _ now (.inl rfl)

/-- So does every history, and it leads to states that can move again. -/
theorem Placed.outcomes_moved
    (placed : controller.Placed)
    (history : List (ℚ × Action ℤ)) :
    (controller.renamed (.moved bytes span)).outcomes
          (wholly (movedBy bytes span history)) =
        (controller.outcomes (wholly history)).map
          (Result.renamed (.moved bytes span)) ∧
      ∀ outcome ∈ controller.outcomes (wholly history),
        outcome.state.Placed := by
  induction history generalizing controller with
  | nil => exact ⟨rfl, by simp [wholly, outcomes]⟩
  | cons step rest inductionHypothesis =>
      obtain ⟨now, action⟩ := step
      have performed := placed.perform now (action.map Int.cast)
      have same := placed.perform_moved bytes span now action
      obtain ⟨laterSame, laterPlaced⟩ := inductionHypothesis performed
      constructor
      · change _ :: _ = _ :: _
        rw [same]
        exact congrArg _ laterSame
      · exact List.forall_mem_cons.mpr ⟨performed, laterPlaced⟩

theorem Placed.after_moved
    (placed : controller.Placed)
    (history : List (ℚ × Action ℤ)) :
    (controller.renamed (.moved bytes span)).after
        (wholly (movedBy bytes span history)) =
      (controller.after (wholly history)).renamed (.moved bytes span) := by
  induction history generalizing controller with
  | nil => rfl
  | cons step rest inductionHypothesis =>
      obtain ⟨now, action⟩ := step
      have same := placed.perform_moved bytes span now action
      have later :=
        inductionHypothesis (placed.perform now (action.map Int.cast))
      have state_eq : ((controller.renamed (.moved bytes span)).perform
            (now + span) ((action.map (· + bytes)).map Int.cast)).state =
          (controller.perform now (action.map Int.cast)).state.renamed
            (.moved bytes span) :=
        congrArg Outcome.state same
      rw [← state_eq] at later
      exact later

end Histories

/-- Where the ring begins and when the clock was started makes no difference.
Take any controller with positions on the ring and whole byte counts, and any
reports of whole totals, of steps as large as you like.  Move all positions and
totals by the same number of bytes around the ring, and all clock readings by the
same span.  Then every report has the same events and the same fault as before,
it leads to the moved state, and whatever is asked has the same answer. -/
theorem unchanged_by_moving
    (controller : Controller ℚ)
    (bytes : ℤ)
    (span : ℚ)
    (history : List (ℚ × Action ℤ))
    (placed : controller.Placed) :
    (∀ now, (controller.renamed (.moved bytes span)).readout (now + span) =
        controller.readout now) ∧
      List.Forall₂
        (fun moved plain =>
          moved.events = plain.events ∧ moved.fault = plain.fault ∧
            moved.state = plain.state.renamed (.moved bytes span) ∧
            ∀ now, moved.state.readout (now + span) = plain.state.readout now)
        ((controller.renamed (.moved bytes span)).outcomes
          (wholly (movedBy bytes span history)))
        (controller.outcomes (wholly history)) ∧
      (controller.renamed (.moved bytes span)).after
          (wholly (movedBy bytes span history)) =
        (controller.after (wholly history)).renamed (.moved bytes span) := by
  obtain ⟨same, laterPlaced⟩ := placed.outcomes_moved bytes span history
  refine ⟨placed.readout_moved bytes span, ?_,
    placed.after_moved bytes span history⟩
  rw [same, List.forall₂_map_left_iff, List.forall₂_same]
  intro outcome member
  exact ⟨List.map_id _, rfl, rfl,
    (laterPlaced outcome member).readout_moved bytes span⟩

/-- A controller just before the end of the ring, with a probe on its way. -/
def beforeEnd : Controller ℚ where
  config := ⟨(Window.initial : ℚ), true, .wrapping⟩
  position := 4294967290
  extra := 300
  base := some 20
  window := 16384
  samples := 2
  lowest := some 25
  lowestCongested := none
  updatedAt := 95
  busyAt := 95
  adjustedAt := 40
  answeredAt := 90
  answered := ⟨70, 4294950000, 0, false⟩
  pending := [⟨185 / 2, 4294967000, 100, true⟩]

/-- A step across the end of the ring, the end of a measurement period, a step of
more than half of the ring and an idle period. -/
def acrossEnd : List (ℚ × Action ℤ) :=
  [(100, .recordProgress 4294970000),
    (101, .probeSent),
    (120, .probeAnswered),
    (130, .recordProgress 7000000000),
    (140, .probeAnswered),
    (5000000, .recordProgress 7000000000),
    (5000100, .recordProgress 7000000000),
    (5000300, .recordProgress 7000000000)]

theorem unchanged_by_moving_acrossEnd :
    beforeEnd.Placed ∧
      ((beforeEnd.outcomes (wholly acrossEnd)).map fun outcome =>
        outcome.events.length) = [0, 0, 1, 0, 0, 0, 0, 1] ∧
      List.Forall₂
        (fun moved plain =>
          moved.events = plain.events ∧
            ∀ now, moved.state.readout (now + -1000) = plain.state.readout now)
        ((beforeEnd.renamed (.moved 3000000000 (-1000))).outcomes
          (wholly (movedBy 3000000000 (-1000) acrossEnd)))
        (beforeEnd.outcomes (wholly acrossEnd)) := by
  have placed : beforeEnd.Placed := {
    counting := rfl
    initialWindow := .natCast _
    window := ⟨16384, by norm_num [beforeEnd]⟩
    extra := ⟨300, by norm_num [beforeEnd]⟩
    position := ⟨4294967290, by norm_num [beforeEnd], by norm_num [ringSize]⟩
    probes := by
      intro probe member
      obtain rfl | rfl : probe = ⟨70, 4294950000, 0, false⟩ ∨
          probe = ⟨185 / 2, 4294967000, 100, true⟩ := by
        simpa [beforeEnd] using member
      · exact ⟨4294950000, by norm_num, by norm_num [ringSize]⟩
      · exact ⟨4294967000, by norm_num, by norm_num [ringSize]⟩ }
  obtain ⟨_, same, _⟩ := unchanged_by_moving beforeEnd 3000000000 (-1000)
    acrossEnd placed
  refine ⟨placed, by decide +kernel, same.imp ?_⟩
  exact fun moved plain agree => ⟨agree.1, agree.2.2.2⟩

/-- A controller whose surplus is half a byte, at the beginning of the ring. -/
def halfByte : Controller ℚ :=
  { fresh ⟨(Window.initial : ℚ), true, .wrapping⟩ 0 with
    extra := 1 / 2
    base := some 10
    answered := ⟨0, 4294967295, 0, false⟩ }

/-- A controller whose window ends with half a byte. -/
def halfWindow : Controller ℚ :=
  { fresh ⟨(Window.initial : ℚ), true, .wrapping⟩ 0 with
    window := 8193 / 2
    position := 5000
    answered := ⟨0, 904, 0, false⟩ }

/-- Fractions of bytes are cut off towards the beginning of the ring, so there it
matters where the ring begins: by a byte for the surplus, and for the window by
whether it has room at all. -/
theorem changed_by_moving_halfByte :
    (RingPlace halfByte.position ∧ RingPlace halfByte.answered.position ∧
        halfByte.pending = [] ∧ halfByte.inFlight 0 = 0 ∧
        (halfByte.renamed (.moved 1 0)).inFlight (0 + 0) = 1) ∧
      RingPlace halfWindow.position ∧ RingPlace halfWindow.answered.position ∧
        halfWindow.pending = [] ∧ halfWindow.untilUncongested 0 = some 0 ∧
        (halfWindow.renamed (.moved (-4900) 0)).untilUncongested (0 + 0) =
          none := by
  refine ⟨⟨⟨0, ?_, ?_⟩, ⟨4294967295, ?_, ?_⟩, rfl, by decide +kernel,
    by decide +kernel⟩, ⟨5000, ?_, ?_⟩, ⟨904, ?_, ?_⟩, rfl, by decide +kernel,
    by decide +kernel⟩
  all_goals norm_num [halfByte, halfWindow, fresh, ringSize]

end Controller
end Backpressure
