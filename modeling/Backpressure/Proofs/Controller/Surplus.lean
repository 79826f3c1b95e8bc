import Backpressure.Proofs.Controller.Estimates
import Backpressure.Proofs.Controller.WireLatency

/-!
# The surplus and the last answer

What was handed over before the last answered probe has been received.  Without a pending
probe the estimate of the bytes on their way does not use this: it takes the surplus,
which drains with time and which no answer lowers.  So the estimate can exceed the bytes
since the last answered probe, but only by what was left in the buffers when that probe
was sent.
-/

namespace Backpressure

open Binary64

/-! ## Small counts -/

namespace Binary64

/-- What is left of a number of at most 53 bits, or nothing. -/
theorem larger_zero_subtract_natCast
    {number : ℕ}
    {value : Binary64}
    (small : number < 2 ^ 53)
    (count : Count value) :
    ∃ left : ℕ, Arithmetic.larger 0 (finite number - value) = finite left ∧
      left ≤ number := by
  have whole : WholeUpTo 53 (finite number) :=
    ⟨number, rfl, by exact_mod_cast small.le⟩
  by_cases ordered : value ≤ finite number
  · obtain rfl | ⟨gone, rfl⟩ := count
    · contradiction
    · have gone_le : gone ≤ number := by
        rw [finite_le_finite] at ordered
        exact_mod_cast ordered
      refine ⟨number - gone, ?_, Nat.sub_le _ _⟩
      rw [subtract_natCast small (gone_le.trans_lt small), ← Nat.cast_sub gone_le,
        literal_zero, larger_finite, max_eq_right (Nat.cast_nonneg _)]
  · refine ⟨0, ?_, Nat.zero_le _⟩
    rw [whole.larger_zero_subtract_of_not_le count ordered, literal_zero, Nat.cast_zero]

/-- The smaller of a count and a number is a number. -/
theorem Count.smaller_natCast
    {value : Binary64}
    (count : Count value)
    (number : ℕ) :
    ∃ least : ℕ, Arithmetic.smaller value (finite number) = finite least ∧
      least ≤ number := by
  obtain rfl | ⟨whole, rfl⟩ := count
  · exact ⟨number, rfl, le_rfl⟩
  · refine ⟨min whole number, ?_, min_le_right _ _⟩
    rw [smaller_finite, Nat.cast_min]

end Binary64

/-! ## The place of a probe in a history -/

namespace Journal

section Places

variable {α : Type} [Arithmetic α]

/-- A journal keeps the probes that it lists. -/
theorem sent_prefix_after
    (journal : Journal α)
    (controller : Controller α)
    (history : List (α × Controller.Action α)) :
    journal.sent <+: (journal.after controller history).sent := by
  induction history generalizing journal controller with
  | nil => exact List.prefix_rfl
  | cons step rest inductionHypothesis =>
      apply List.IsPrefix.trans _ (inductionHypothesis _ _)
      obtain kept | sent := journal.sent_entered controller step.1 step.2
      · rw [kept]
      · rw [sent]
        exact List.prefix_append _ _

@[simp] theorem sent_entered_probeAnswered
    (journal : Journal α)
    (controller : Controller α)
    (now : α) :
    (journal.entered controller now .probeAnswered).sent = journal.sent := by
  simp only [entered]
  split_ifs
  · rfl
  · rfl

/-- Every probe that a history adds to a journal was sent at a place of the history. -/
theorem exists_place
    (journal : Journal α)
    (controller : Controller α)
    (history : List (α × Controller.Action α))
    {number : ℕ}
    (le_number : journal.sent.length ≤ number)
    (number_lt : number < (journal.after controller history).sent.length) :
    ∃ earlier sentAt later,
      history = earlier ++ (sentAt, .probeSent) :: later ∧
        (journal.after controller earlier).sent.length = number ∧
        (journal.after controller history).sent[number]?.map Sending.probe =
          some ((controller.after earlier).probeNow sentAt) := by
  induction history generalizing journal controller with
  | nil => exact absurd number_lt le_number.not_gt
  | cons step rest inductionHypothesis =>
      obtain ⟨now, action⟩ := step
      by_cases enough : (journal.entered controller now action).sent.length ≤ number
      · obtain ⟨earlier, sentAt, later, rfl, length_eq, sending_eq⟩ :=
          inductionHypothesis _ _ enough number_lt
        exact ⟨(now, action) :: earlier, sentAt, later, rfl, length_eq, sending_eq⟩
      · cases action with
        | recordProgress total => exact absurd le_number enough
        | probeAnswered =>
            rw [sent_entered_probeAnswered] at enough
            exact absurd le_number enough
        | probeSent =>
            have sent_eq : (journal.entered controller now .probeSent).sent =
                journal.sent ++ [⟨controller.probeNow now, journal.total⟩] := rfl
            rw [sent_eq, List.length_append, List.length_singleton] at enough
            obtain rfl : journal.sent.length = number := by omega
            obtain ⟨more, more_eq⟩ := sent_prefix_after
              (journal.entered controller now .probeSent)
              (controller.perform now .probeSent).state rest
            refine ⟨[], now, rest, rfl, rfl, ?_⟩
            rw [Journal.after, ← more_eq, sent_eq, List.append_assoc,
              List.getElem?_append_right le_rfl, Nat.sub_self]
            rfl

/-- The probe that was answered last is at the place of the last answer. -/
theorem Describes.answered_eq
    {journal : Journal α}
    {controller : Controller α}
    (describes : journal.Describes controller)
    {number : ℕ}
    (arrivals : journal.arrivals.length = number + 1) :
    journal.sent[number]?.map Sending.probe = some controller.answered := by
  have heads := congrArg List.head? describes.lineUp
  rw [Journal.lineUp, arrivals, List.drop_succ_cons, List.head?_map,
    List.head?_drop] at heads
  exact heads.symm

end Places

/-- The wire latency is not known before an answer. -/
theorem arrivals_ne_nil
    {journal : Journal Binary64}
    {controller : Controller Binary64}
    (isMinimum : IsMinimum journal.roundTrips controller.base)
    (known : controller.base ≠ none) :
    journal.arrivals ≠ [] := by
  intro none
  have roundTrips_eq : journal.roundTrips = [] := by
    unfold roundTrips
    rw [none, List.zip_nil_right, List.drop_nil, List.map_nil]
  obtain ⟨base, base_eq⟩ := Option.ne_none_iff_exists'.mp known
  rw [roundTrips_eq, base_eq] at isMinimum
  obtain ⟨member, _⟩ | ⟨member, _⟩ := isMinimum
  · exact List.not_mem_nil member
  · exact List.not_mem_nil member

end Journal

namespace Controller

/-! ## Totals and their residues -/

/-- The total that was reported last, or the given one. -/
def lastTotal (start : ℕ) (history : List (Binary64 × Action ℕ)) : ℕ :=
  (totals history).getLastD start

/-- A history of totals, each told as its residue. -/
def told (history : List (Binary64 × Action ℕ)) : List (Binary64 × Action Binary64) :=
  history.map fun step =>
    (step.1, step.2.map fun total => ((total % Arithmetic.ringSize : ℕ) : Binary64))

@[simp] theorem told_append (earlier later : List (Binary64 × Action ℕ)) :
    told (earlier ++ later) = told earlier ++ told later :=
  List.map_append

/-- A probe among what was told is a probe of the history. -/
theorem exists_eq_append_of_told
    {history : List (Binary64 × Action ℕ)}
    {toldEarlier toldLater : List (Binary64 × Action Binary64)}
    {sentAt : Binary64}
    (split : told history = toldEarlier ++ (sentAt, .probeSent) :: toldLater) :
    ∃ earlier later, history = earlier ++ (sentAt, .probeSent) :: later ∧
      told earlier = toldEarlier := by
  obtain ⟨earlier, others, rfl, earlier_eq, others_eq⟩ := List.map_eq_append_iff.mp split
  obtain ⟨⟨reading, action⟩, later, rfl, step_eq, _⟩ := List.map_eq_cons_iff.mp others_eq
  obtain ⟨rfl, action_eq⟩ := Prod.ext_iff.mp step_eq
  cases action with
  | recordProgress total => contradiction
  | probeSent => exact ⟨earlier, later, rfl, earlier_eq⟩
  | probeAnswered => contradiction

section Totals

variable (start : ℕ) (history : List (Binary64 × Action ℕ))

@[simp] theorem lastTotal_recordProgress (now : Binary64) (total : ℕ) :
    lastTotal start ((now, .recordProgress total) :: history) =
      lastTotal total history :=
  List.getLastD_cons

theorem lastTotal_append (earlier : List (Binary64 × Action ℕ)) :
    lastTotal start (earlier ++ history) =
      lastTotal (lastTotal start earlier) history := by
  induction earlier generalizing start with
  | nil => rfl
  | cons step rest inductionHypothesis =>
      obtain ⟨now, action⟩ := step
      rw [List.cons_append]
      cases action with
      | recordProgress total =>
          rw [lastTotal_recordProgress, lastTotal_recordProgress, inductionHypothesis]
      | probeSent => exact inductionHypothesis start
      | probeAnswered => exact inductionHypothesis start

variable {start history}

theorem le_lastTotal (nondecreasing : (start :: totals history).Pairwise (· ≤ ·)) :
    start ≤ lastTotal start history := by
  induction history generalizing start with
  | nil => exact le_rfl
  | cons step rest inductionHypothesis =>
      obtain ⟨now, action⟩ := step
      cases action with
      | recordProgress total =>
          have total_le : start ≤ total :=
            List.rel_of_pairwise_cons nondecreasing List.mem_cons_self
          rw [lastTotal_recordProgress]
          exact total_le.trans (inductionHypothesis nondecreasing.of_cons)
      | probeSent => exact inductionHypothesis nondecreasing
      | probeAnswered => exact inductionHypothesis nondecreasing

/-- What follows a part of a history reports no totals below those of the part. -/
theorem pairwise_lastTotal_append
    {later : List (Binary64 × Action ℕ)}
    (nondecreasing : (start :: totals (history ++ later)).Pairwise (· ≤ ·)) :
    (lastTotal start history :: totals later).Pairwise (· ≤ ·) := by
  induction history generalizing start with
  | nil => exact nondecreasing
  | cons step rest inductionHypothesis =>
      obtain ⟨now, action⟩ := step
      cases action with
      | recordProgress total =>
          rw [lastTotal_recordProgress]
          exact inductionHypothesis nondecreasing.of_cons
      | probeSent => exact inductionHypothesis nondecreasing
      | probeAnswered => exact inductionHypothesis nondecreasing

end Totals

section Positions

variable {controller : Controller Binary64} {total : ℕ}

/-- The position is the residue of the total that was reported last. -/
theorem position_after_told
    (counting : controller.config.counting = .wrapping)
    (position : controller.position = finite (total % Arithmetic.ringSize : ℕ))
    (history : List (Binary64 × Action ℕ)) :
    (controller.after (told history)).position =
      finite (lastTotal total history % Arithmetic.ringSize : ℕ) := by
  induction history generalizing controller total with
  | nil => exact position
  | cons step rest inductionHypothesis =>
      obtain ⟨now, action⟩ := step
      cases action with
      | recordProgress later =>
          rw [lastTotal_recordProgress]
          apply inductionHypothesis
          · rw [config_perform, counting]
          · change (controller.recordProgress now _).state.position = _
            rw [position_recordProgress, counting]
            exact residue_natCast (mod_ringSize_lt later)
      | probeSent => exact inductionHypothesis counting position
      | probeAnswered =>
          apply inductionHypothesis
          · rw [config_perform, counting]
          · change (controller.probeAnswered now).state.position = _
            rw [position_probeAnswered, position]

/-- Less than a turn ahead, the ring knows the distance of two totals. -/
theorem distance_of_totals
    (counting : controller.config.counting = .wrapping)
    {later : ℕ}
    (le_later : total ≤ later)
    (near : later - total < Arithmetic.ringSize) :
    controller.distance (finite (later % Arithmetic.ringSize : ℕ))
        (finite (total % Arithmetic.ringSize : ℕ)) =
      finite (later - total : ℕ) := by
  rw [distance_finite counting (mod_ringSize_lt later) (mod_ringSize_lt total)]
  congr 2
  unfold Arithmetic.ringSize at *
  omega

/-- A total adds the bytes since the last one. -/
theorem added_told
    (counting : controller.config.counting = .wrapping)
    (position : controller.position = finite (total % Arithmetic.ringSize : ℕ))
    {later : ℕ}
    (le_later : total ≤ later)
    (near : later - total < Arithmetic.ringSize) :
    controller.added ((later % Arithmetic.ringSize : ℕ) : Binary64) =
      finite (later - total : ℕ) := by
  rw [← distance_of_totals counting le_later near, ← position]
  unfold added
  rw [counting]
  congr 1
  exact residue_natCast (mod_ringSize_lt later)

end Positions

/-! ## The growth of the surplus -/

section Growth

variable {readings : Set Binary64} {controller : Controller Binary64}
variable {now : Binary64}

/-- A report adds no more to the surplus than its bytes. -/
theorem Sound.extra_recordProgress_le
    (spaced : FinitelySpaced readings)
    (sound : controller.Sound readings)
    (now_mem : now ∈ readings)
    {total : Binary64}
    {extra added : ℕ}
    (extra_eq : controller.extra = finite extra)
    (added_eq : controller.added total = finite added)
    (small : extra + added < 2 ^ 53) :
    ∃ left : ℕ, (controller.recordProgress now total).state.extra = finite left ∧
      left ≤ extra + added := by
  have checked := sound.checked now_mem total
  rw [state_recordProgress]
  simp only [Controller.surplusAfter, extra_checked, updatedAt_checked, extra_eq,
    added_eq]
  cases known : (controller.checked now total).base with
  | none => exact ⟨extra, rfl, Nat.le_add_right _ _⟩
  | some base =>
      have drained := checked.drained_updatedAt spaced now_mem known
      rw [updatedAt_checked] at drained
      dsimp only
      rw [add_finite, ← Nat.cast_add, round_natCast small]
      exact larger_zero_subtract_natCast small drained

theorem Sound.after_told
    (spaced : FinitelySpaced readings)
    (sound : controller.Sound readings)
    {history : List (Binary64 × Action ℕ)}
    (readings_mem : ∀ step ∈ history, step.1 ∈ readings) :
    (controller.after (told history)).Sound readings := by
  refine (sound.after_of_perform (motive := fun _ => True) spaced
    (fun _ _ _ _ => trivial) trivial ?_).1
  exact List.forall_mem_map.mpr readings_mem

/-- A history adds no more to the surplus than the bytes it hands over. -/
theorem Sound.extra_after_told_le
    (spaced : FinitelySpaced readings)
    (sound : controller.Sound readings)
    {history : List (Binary64 × Action ℕ)}
    (readings_mem : ∀ step ∈ history, step.1 ∈ readings)
    {total extra : ℕ}
    (position : controller.position = finite (total % Arithmetic.ringSize : ℕ))
    (extra_eq : controller.extra = finite extra)
    (nondecreasing : (total :: totals history).Pairwise (· ≤ ·))
    (near : lastTotal total history - total < Arithmetic.ringSize)
    (small : extra + (lastTotal total history - total) < 2 ^ 53) :
    ∃ left : ℕ, (controller.after (told history)).extra = finite left ∧
      left ≤ extra + (lastTotal total history - total) := by
  induction history generalizing controller total extra with
  | nil => exact ⟨extra, extra_eq, Nat.le_add_right _ _⟩
  | cons step rest inductionHypothesis =>
      obtain ⟨now, action⟩ := step
      obtain ⟨now_mem, later_mem⟩ := List.forall_mem_cons.mp readings_mem
      have performed := (sound.perform spaced now_mem (action.map fun total =>
        ((total % Arithmetic.ringSize : ℕ) : Binary64))).2
      cases action with
      | recordProgress later =>
          have le_later : total ≤ later :=
            List.rel_of_pairwise_cons nondecreasing List.mem_cons_self
          have later_le : later ≤ lastTotal later rest :=
            le_lastTotal nondecreasing.of_cons
          have moved : (controller.recordProgress now
              ((later % Arithmetic.ringSize : ℕ) : Binary64)).state.position =
                finite (later % Arithmetic.ringSize : ℕ) :=
            position_after_told sound.counting position [(now, .recordProgress later)]
          rw [lastTotal_recordProgress] at near small ⊢
          obtain ⟨stored, stored_eq, stored_le⟩ := sound.extra_recordProgress_le spaced
            now_mem extra_eq (added_told sound.counting position le_later (by omega))
            (by omega)
          obtain ⟨left, left_eq, left_le⟩ := inductionHypothesis performed later_mem moved
            stored_eq nondecreasing.of_cons (by omega) (by omega)
          exact ⟨left, left_eq, by omega⟩
      | probeSent =>
          exact inductionHypothesis performed later_mem position extra_eq nondecreasing
            near small
      | probeAnswered =>
          apply inductionHypothesis performed later_mem _ _ nondecreasing near small
          · change (controller.probeAnswered now).state.position = _
            rw [position_probeAnswered, position]
          · change (controller.probeAnswered now).state.extra = _
            rw [extra_probeAnswered, extra_eq]

/-! ## Bytes on their way without a pending probe -/

/-- What the peer has received is a count. -/
theorem Sound.receivedSince_count
    (spaced : FinitelySpaced readings)
    (sound : controller.Sound readings)
    (now_mem : now ∈ readings)
    {base : Binary64}
    (known : controller.base = some base) :
    Count (controller.receivedSince base now) := by
  have elapsedWhole := spaced.elapsed sound.updatedAt now_mem
  obtain ⟨milliseconds, rfl, positive⟩ :=
    (sound.base base known).exists_natCast spaced
  unfold receivedSince
  dsimp only
  split_ifs with soon
  · exact .zero
  · obtain ⟨elapsed, elapsed_eq, elapsed_le⟩ := elapsedWhole
    rw [elapsed_eq] at soon ⊢
    have before : finite milliseconds ≤ finite elapsed := by
      rw [finite_le_finite] at soon ⊢
      exact le_of_not_ge soon
    have rest : WholeFinite (finite elapsed - finite milliseconds) :=
      WholeFinite.subtract ⟨elapsed, rfl, elapsed_le⟩ (.inr ⟨milliseconds, rfl⟩) before
    obtain ⟨span, span_eq, _⟩ := rest
    obtain ⟨window, window_eq, _⟩ := sound.window
    unfold Buffering.drained
    rw [span_eq, window_eq]
    exact (Count.multiply span window).floor_divide positive

/-- Where the peer is taken to be is behind the position by what it has not received. -/
theorem reachedByDraining_eq
    (counting : controller.config.counting = .wrapping)
    {base : Binary64}
    {position extra received : ℕ}
    (position_eq : controller.position = finite position)
    (position_lt : position < Arithmetic.ringSize)
    (extra_eq : controller.extra = finite extra)
    (extra_lt : extra < Arithmetic.ringSize)
    (received_eq :
      Arithmetic.smaller (controller.receivedSince base now) (finite extra) =
        finite received)
    (received_le : received ≤ extra) :
    controller.reachedByDraining now base =
      finite ((position + Arithmetic.ringSize - (extra - received)) %
        Arithmetic.ringSize : ℕ) := by
  have behind_lt : extra - received < Arithmetic.ringSize :=
    (Nat.sub_le _ _).trans_lt extra_lt
  -- All of this is far below what a double counts exactly.
  have sum_eq : finite position - finite extra + finite received =
      finite position - finite (extra - received : ℕ) := by
    have small : |(position : ℤ) - (extra - received : ℕ)| < 2 ^ 53 := by
      unfold Arithmetic.ringSize at *
      exact abs_lt.mpr ⟨by omega, by omega⟩
    unfold Arithmetic.ringSize at *
    rw [subtract_natCast (by omega) (by omega), subtract_natCast (by omega) (by omega),
      add_finite]
    have round_eq := round_intCast small
    push_cast [received_le] at round_eq ⊢
    rw [← round_eq]
    congr 1
    ring
  rw [← residue_subtract position_lt behind_lt, ← sum_eq, ← received_eq]
  unfold Controller.reachedByDraining
  rw [counting, position_eq, extra_eq]
  rfl

/-- Without a pending probe, what the peer has not received of the surplus is on its
way. -/
theorem Sound.inFlight_draining
    (spaced : FinitelySpaced readings)
    (sound : controller.Sound readings)
    (now_mem : now ∈ readings)
    {base : Binary64}
    (known : controller.base = some base)
    (pending : controller.pending = [])
    (unanswered : (controller.position == controller.answered.position) = false)
    {extra : ℕ}
    (extra_eq : controller.extra = finite extra)
    (extra_lt : extra < Arithmetic.ringSize) :
    ∃ received ≤ extra,
      Arithmetic.smaller (controller.receivedSince base now) (finite extra) =
          finite received ∧
        controller.inFlight now = finite (extra - received : ℕ) := by
  obtain ⟨position, position_eq, position_lt⟩ := sound.position
  obtain ⟨received, received_eq, received_le⟩ :=
    (sound.receivedSince_count spaced now_mem known).smaller_natCast extra
  refine ⟨received, received_le, received_eq, ?_⟩
  have reached_eq := reachedByDraining_eq sound.counting position_eq position_lt extra_eq
    extra_lt received_eq received_le
  unfold inFlight
  rw [unanswered, known, pending, if_neg Bool.false_ne_true]
  dsimp only
  rw [reached_eq, position_eq,
    distance_finite sound.counting position_lt (mod_ringSize_lt _)]
  congr 2
  unfold Arithmetic.ringSize at *
  omega

/-- Without a pending probe no more is on its way than the surplus. -/
theorem Sound.inFlight_le_extra
    (spaced : FinitelySpaced readings)
    (sound : controller.Sound readings)
    (now_mem : now ∈ readings)
    (pending : controller.pending = [])
    {extra : ℕ}
    (extra_eq : controller.extra = finite extra) :
    ∃ bytes : ℕ, controller.inFlight now = finite bytes ∧ bytes ≤ extra := by
  have nothing : (0 : Binary64) = finite ((0 : ℕ) : ℚ) := by
    rw [literal_zero, Nat.cast_zero]
  by_cases small : extra < Arithmetic.ringSize
  · cases answered : controller.position == controller.answered.position with
    | true => exact ⟨0, (if_pos answered).trans nothing, Nat.zero_le _⟩
    | false =>
        cases known : controller.base with
        | none =>
            refine ⟨0, ?_, Nat.zero_le _⟩
            unfold inFlight
            rw [known, pending, ← nothing]
            exact ite_self 0
        | some base =>
            obtain ⟨received, _, _, inFlight_eq⟩ := sound.inFlight_draining spaced now_mem
              known pending answered extra_eq small
            exact ⟨extra - received, inFlight_eq, Nat.sub_le _ _⟩
  · -- No more than the ring is ever on its way, and the surplus is more than that.
    obtain ⟨bytes, bytes_eq, bytes_lt⟩ := sound.onRing_inFlight now
    exact ⟨bytes, bytes_eq, by omega⟩

/-- If no probe is pending and the answered one stands where a part of the history ended,
no more is on its way than what was handed over since then and the surplus at that
time. -/
theorem Sound.inFlight_le_way_add
    (spaced : FinitelySpaced readings)
    (sound : controller.Sound readings)
    (now_mem : now ∈ readings)
    {earlier later : List (Binary64 × Action ℕ)}
    (readings_mem : ∀ step ∈ earlier ++ later, step.1 ∈ readings)
    {start : ℕ}
    (position : controller.position = finite (start % Arithmetic.ringSize : ℕ))
    (nondecreasing : (start :: totals (earlier ++ later)).Pairwise (· ≤ ·)) :
    let sending := controller.after (told earlier)
    let before := controller.after (told (earlier ++ later))
    let since := lastTotal start (earlier ++ later) - lastTotal start earlier
    before.pending = [] →
      before.answered.position = sending.position →
      since < Arithmetic.ringSize →
        ∃ bytes left : ℕ,
          before.inFlight now = finite bytes ∧
            before.distance before.position before.answered.position =
              finite since ∧
            sending.extra = finite left ∧
            bytes ≤ since + left := by
  intro sending before since pending answered near
  obtain ⟨earlier_mem, later_mem⟩ := List.forall_mem_append.mp readings_mem
  have sendingSound : sending.Sound readings := sound.after_told spaced earlier_mem
  have beforeSound : before.Sound readings := sound.after_told spaced readings_mem
  have sending_position : sending.position = _ :=
    position_after_told sound.counting position earlier
  have before_position : before.position = _ :=
    position_after_told sound.counting position (earlier ++ later)
  have before_eq : before = sending.after (told later) := by
    simp only [before, sending]
    rw [told_append, after_append]
  have rising := pairwise_lastTotal_append nondecreasing
  have since_eq : since =
      lastTotal (lastTotal start earlier) later - lastTotal start earlier := by
    simp only [since]
    rw [lastTotal_append]
  have le_last : lastTotal start earlier ≤ lastTotal start (earlier ++ later) := by
    rw [lastTotal_append]
    exact le_lastTotal rising
  have distance_eq := distance_of_totals beforeSound.counting le_last near
  rw [← before_position, ← sending_position, ← answered] at distance_eq
  obtain ⟨left, left_eq, _⟩ := sendingSound.extra
  obtain ⟨bytes, bytes_eq, bytes_lt⟩ := beforeSound.onRing_inFlight now
  refine ⟨bytes, left, bytes_eq, distance_eq, left_eq, ?_⟩
  by_cases small : left < Arithmetic.ringSize
  · rw [since_eq] at near ⊢
    obtain ⟨extra, extra_eq, extra_le⟩ := sendingSound.extra_after_told_le spaced
      later_mem sending_position left_eq rising near
      (by unfold Arithmetic.ringSize at *; omega)
    rw [← before_eq] at extra_eq
    obtain ⟨fewer, fewer_eq, fewer_le⟩ :=
      beforeSound.inFlight_le_extra spaced now_mem pending extra_eq
    rw [bytes_eq, finite.injEq, Nat.cast_inj] at fewer_eq
    omega
  · omega

end Growth

/-! ## Any history -/

/-- Once the wire latency is known, the probe that was answered last is one of the
history, with as many probes before it as answers came before the last one. -/
theorem exists_answered_place
    {options : Options Binary64}
    {verifyByDefault : Bool}
    {start : Binary64}
    {controller : Controller Binary64}
    (started : Controller.start options verifyByDefault start = .ok controller)
    (history : List (Binary64 × Action ℕ))
    (known : (controller.after (told history)).base ≠ none) :
    ∃ earlier sentAt later,
      history = earlier ++ (sentAt, .probeSent) :: later ∧
        ((Journal.opened start).after controller (told earlier)).sent.length + 1 =
          ((Journal.opened start).after controller (told history)).arrivals.length ∧
        (controller.after (told history)).answered =
          (controller.after (told earlier)).probeNow sentAt := by
  have opened := Journal.describes_of_start started
  have describes := opened.after (told history)
  have unknownAtStart : controller.base = none := by
    obtain ⟨config, rfl, _⟩ := start_ok started
    rfl
  have isMinimum := opened.isMinimum_after (unknownAtStart ▸ .inr rfl) (told history)
  obtain ⟨number, arrivals⟩ := Nat.exists_eq_add_one.mpr
    (List.length_pos_iff.mpr (Journal.arrivals_ne_nil isMinimum known))
  have number_lt :
      number < ((Journal.opened start).after controller (told history)).sent.length := by
    have arrivals_le := describes.arrivals_le
    omega
  obtain ⟨_, sentAt, _, split, length_eq, sending_eq⟩ :=
    (Journal.opened start).exists_place controller (told history) (Nat.zero_le number)
      number_lt
  obtain ⟨earlier, later, rfl, rfl⟩ := exists_eq_append_of_told split
  refine ⟨earlier, sentAt, later, rfl, by rw [length_eq, arrivals], ?_⟩
  exact Option.some.inj ((describes.answered_eq arrivals).symm.trans sending_eq)

/-- What can be on its way when no probe is pending.  Take any controller that was
started and any reports of totals that do not decrease, each told as its residue, at
readings of which no two are too far apart for a double, and let no probe be pending.
Nothing is taken to be on its way as long as the wire latency is unknown, and never more
than the stored surplus.  If the wire latency is known, a probe was answered, and a
journal of the probes finds it in the history.  If fewer bytes than the ring has positions
were handed over since it was sent, no more is taken to be on its way than these bytes,
which are the distance from its position to the last one, and the surplus that was stored
when it was sent. -/
theorem inFlight_without_pending
    (options : Options Binary64)
    (verifyByDefault : Bool)
    (start now : Binary64)
    (controller : Controller Binary64)
    (history : List (Binary64 × Action ℕ))
    (started : Controller.start options verifyByDefault start = .ok controller)
    (nondecreasing : (totals history).Pairwise (· ≤ ·))
    (spaced : FinitelySpaced
      {reading | reading ∈ start :: history.map Prod.fst ++ [now]})
    (noProbe : (controller.after (told history)).pending = []) :
    let before := controller.after (told history)
    let journal := (Journal.opened start).after controller (told history)
    (before.base = none → before.inFlight now = 0) ∧
      (∃ bytes extra : ℕ, before.inFlight now = finite bytes ∧
        before.extra = finite extra ∧ bytes ≤ extra) ∧
      (before.base ≠ none →
        ∃ earlier sentAt later,
          history = earlier ++ (sentAt, .probeSent) :: later ∧
            ((Journal.opened start).after controller (told earlier)).sent.length + 1 =
              journal.arrivals.length ∧
            before.answered = (controller.after (told earlier)).probeNow sentAt ∧
            (lastTotal 0 history - lastTotal 0 earlier < Arithmetic.ringSize →
              ∃ bytes left : ℕ,
                before.inFlight now = finite bytes ∧
                  before.distance before.position before.answered.position =
                    finite (lastTotal 0 history - lastTotal 0 earlier : ℕ) ∧
                  (controller.after (told earlier)).extra = finite left ∧
                  bytes ≤ lastTotal 0 history - lastTotal 0 earlier + left)) := by
  intro before journal
  have start_mem : start ∈
      {reading | reading ∈ start :: history.map Prod.fst ++ [now]} :=
    List.mem_cons_self
  have now_mem : now ∈
      {reading | reading ∈ start :: history.map Prod.fst ++ [now]} :=
    List.mem_append_right _ (List.mem_singleton.mpr rfl)
  have readings_mem : ∀ step ∈ history,
      step.1 ∈ {reading | reading ∈ start :: history.map Prod.fst ++ [now]} :=
    fun step member => List.mem_append_left _
      (List.mem_cons_of_mem _ (List.mem_map_of_mem member))
  have startedSound := sound_of_start start_mem started
  have sound : before.Sound _ := startedSound.after_told spaced readings_mem
  have position : controller.position = finite (0 % Arithmetic.ringSize : ℕ) := by
    obtain ⟨config, rfl, _⟩ := start_ok started
    exact literal_zero
  obtain ⟨extra, extra_eq, _⟩ := sound.extra
  obtain ⟨bytes, bytes_eq, bytes_le⟩ :=
    sound.inFlight_le_extra spaced now_mem noProbe extra_eq
  refine ⟨?_, ⟨bytes, extra, bytes_eq, extra_eq, bytes_le⟩, fun known => ?_⟩
  · intro unknown
    have pending : before.pending = [] := noProbe
    unfold inFlight
    rw [unknown, pending]
    exact ite_self 0
  · obtain ⟨earlier, sentAt, later, rfl, place, answered⟩ :=
      exists_answered_place started history known
    refine ⟨earlier, sentAt, later, rfl, place, answered, ?_⟩
    apply startedSound.inFlight_le_way_add spaced now_mem readings_mem position _ noProbe
    · exact congrArg Probe.position answered
    · exact List.pairwise_cons.mpr ⟨fun _ _ => Nat.zero_le _, nondecreasing⟩

/-- A burst, a round trip after it, and one more byte. -/
def answeredBurst : List (Binary64 × Action ℕ) :=
  [(0, .probeSent),
    (finite 20, .probeAnswered),
    (finite 20, .recordProgress 100000),
    (finite 20, .probeSent),
    (finite 40, .probeAnswered),
    (finite 40, .recordProgress 100001)]

theorem inFlight_without_pending_answeredBurst :
    let before := byDefault.after (told answeredBurst)
    ∃ bytes left : ℕ,
      before.inFlight (finite 40) = finite bytes ∧
        before.distance before.position before.answered.position = finite 1 ∧
        (byDefault.after (told (answeredBurst.take 3))).extra = finite left ∧
        bytes ≤ 1 + left := by
  intro before
  have close : ∀ earlier ∈ 0 :: answeredBurst.map Prod.fst ++ [finite 40],
      ∀ later ∈ 0 :: answeredBurst.map Prod.fst ++ [finite 40],
        later - earlier < infinity false := by
    decide +kernel
  have nondecreasing : (totals answeredBurst).Pairwise (· ≤ ·) := by decide
  have noProbe : before.pending = [] := List.length_eq_zero_iff.mp (by decide +kernel)
  obtain ⟨_, _, answered⟩ := inFlight_without_pending ⟨none, none⟩ true 0 (finite 40)
    byDefault answeredBurst start_byDefault nondecreasing close noProbe
  obtain ⟨earlier, sentAt, later, split, place, _, bound⟩ :=
    answered (by decide +kernel)
  -- The second answer belongs to the second probe, which is the fourth report.
  have only : ∀ number < 6,
      ((Journal.opened 0).after byDefault (told (answeredBurst.take number))).sent.length +
          1 = ((Journal.opened 0).after byDefault (told answeredBurst)).arrivals.length →
        answeredBurst[number]?.map (·.2.isProbe) = some true → number = 3 := by
    decide +kernel
  have earlier_eq : answeredBurst.take earlier.length = earlier := by
    rw [split, List.take_left]
  have length_lt : earlier.length < 6 := by
    have length_eq := congrArg List.length split
    rw [List.length_append, List.length_cons] at length_eq
    change 6 = _ at length_eq
    omega
  have isProbe : answeredBurst[earlier.length]?.map (·.2.isProbe) = some true := by
    rw [split, List.getElem?_append_right le_rfl, Nat.sub_self]
    rfl
  have length_eq := only earlier.length length_lt (by rw [earlier_eq, place]) isProbe
  rw [length_eq] at earlier_eq
  rw [← earlier_eq] at bound
  exact bound (by decide)

/-- Readings further apart than any double, and a byte after a long round trip. -/
def farBurst : List (Binary64 × Action ℕ) :=
  [(finite (-2 ^ (1023 : ℤ)), .recordProgress 1000),
    (finite (-2 ^ (1023 : ℤ)), .probeSent),
    (finite (2 ^ (1023 : ℤ)), .probeAnswered),
    (finite (2 ^ (1023 : ℤ)), .recordProgress 1001)]

/-- The surplus cannot be left out of the bound, and neither can the condition on the
clock.  Once a burst of a hundred thousand bytes is answered, one byte is left that was
handed over since, but most of the burst still counts as on its way.  Where the readings
are further apart than any double, a quotient of infinities leaves no surplus, and all
bytes count as on their way. -/
theorem answered_bytes_not_inFlight_refuted :
    let before := byDefault.after (told answeredBurst)
    let far := fresh ⟨(Window.initial : Binary64), true, .wrapping⟩
      (finite (-2 ^ (1023 : ℤ)))
    let farBefore := far.after (told farBurst)
    (before.pending.length = 0 ∧
        before.distance before.position before.answered.position = finite 1 ∧
        before.inFlight (finite 40) = finite 67233 ∧
        ¬before.inFlight (finite 40) ≤
          before.distance before.position before.answered.position) ∧
      farBefore.pending.length = 0 ∧
      farBefore.distance farBefore.position farBefore.answered.position = finite 1 ∧
      (far.after (told (farBurst.take 1))).extra = 0 ∧
      farBefore.inFlight (finite (2 ^ (1023 : ℤ))) = finite 1001 := by
  decide +kernel

end Controller
end Backpressure
