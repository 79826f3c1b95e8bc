import Backpressure.Proofs.Binary64.Quotient
import Backpressure.Proofs.Controller.Repeating
import Backpressure.Proofs.Controller.Surplus

/-!
# Reports and the congestion state

A report of nothing new brings the surplus up to date.  While a probe is pending this does
not show in the estimate of the bytes on their way.  Without one it does: the report
charges all the time since the last one, and the estimate grants a wire latency in which
nothing reaches the peer.  So the report can end congestion, but it never begins it, and
it takes away at most a window.
-/

namespace Backpressure

open Binary64

namespace Binary64

namespace Count

variable {lower upper : Binary64}

theorem zero_le (count : Count lower) : 0 ≤ lower := by
  rw [literal_zero]
  obtain rfl | ⟨number, rfl⟩ := count
  · rfl
  · rw [finite_le_finite]
    exact Nat.cast_nonneg number

/-- The smaller one of a count and a bound grows with the count. -/
theorem smaller_natCast_le
    (lowerCount : Count lower)
    (upperCount : Count upper)
    (ordered : lower ≤ upper)
    {bound less more : ℕ}
    (less_eq : Arithmetic.smaller lower (finite bound) = finite less)
    (more_eq : Arithmetic.smaller upper (finite bound) = finite more) :
    less ≤ more := by
  obtain rfl | ⟨high, rfl⟩ := upperCount
  · obtain ⟨least, least_eq, least_le⟩ := lowerCount.smaller_natCast bound
    change finite (bound : ℚ) = finite more at more_eq
    rw [less_eq, finite.injEq, Nat.cast_inj] at least_eq
    rw [finite.injEq, Nat.cast_inj] at more_eq
    omega
  · obtain rfl | ⟨low, rfl⟩ := lowerCount
    · contradiction
    · rw [smaller_finite, finite.injEq] at less_eq more_eq
      rw [finite_le_finite] at ordered
      have smaller_le := min_le_min_right (bound : ℚ) ordered
      rw [less_eq, more_eq] at smaller_le
      exact_mod_cast smaller_le

/-- The whole part of a quotient grows with the numerator. -/
theorem floor_divide_le
    (lowerCount : Count lower)
    (upperCount : Count upper)
    (ordered : lower ≤ upper)
    {divisor : ℕ}
    (positive : 1 ≤ divisor) :
    Arithmetic.floor (lower / finite divisor) ≤
      Arithmetic.floor (upper / finite divisor) := by
  have divisor_pos : (0 : ℚ) < divisor := by exact_mod_cast positive
  obtain rfl | ⟨high, rfl⟩ := upperCount
  · have endless : Arithmetic.floor (infinity false / finite divisor) =
        infinity false := by
      change Arithmetic.floor
        (infinity (false != decide ((divisor : ℚ) < 0))) = _
      rw [decide_eq_false (not_lt.mpr divisor_pos.le)]
      rfl
    rw [endless]
    exact (lowerCount.floor_divide positive).le_endless
  · obtain rfl | ⟨low, rfl⟩ := lowerCount
    · contradiction
    · rw [finite_le_finite] at ordered
      rw [divide_finite (Nat.cast_nonneg low) divisor_pos,
        divide_finite (Nat.cast_nonneg high) divisor_pos]
      exact floor_round_mono (by positivity) (by gcongr)

end Count

/-- What is left of a whole double is whole, and not more. -/
theorem exists_subtract_le
    {whole part : ℕ}
    (kept : Binary64.round whole = finite whole)
    (part_le : part ≤ whole) :
    ∃ rest : ℕ, finite whole - finite part = finite rest ∧ rest ≤ whole := by
  have part_le' : (part : ℚ) ≤ whole := by exact_mod_cast part_le
  have ordered : finite part ≤ finite whole := by rwa [finite_le_finite]
  obtain ⟨value, value_eq, value_le⟩ :=
    round_subtract_le kept (Nat.cast_nonneg part) part_le'
  obtain endless | ⟨rest, rest_eq⟩ := Count.subtract (.inr ⟨whole, rfl⟩) ordered
  · rw [subtract_finite, value_eq] at endless
    contradiction
  · refine ⟨rest, rest_eq, ?_⟩
    rw [subtract_finite, value_eq, finite.injEq] at rest_eq
    rw [rest_eq] at value_le
    exact_mod_cast value_le

end Binary64

namespace Buffering

variable {window base shorter longer span : ℕ}

/-- More drains in more time, however the products are rounded. -/
theorem drained_natCast_le
    (base_pos : 1 ≤ base)
    (ordered : shorter ≤ longer) :
    drained (finite window) (finite base) (finite shorter) ≤
      drained (finite window) (finite base) (finite longer) := by
  have products : finite shorter * finite window ≤ finite longer * finite window := by
    rw [multiply_finite (Nat.cast_nonneg _) (Nat.cast_nonneg _),
      multiply_finite (Nat.cast_nonneg _) (Nat.cast_nonneg _)]
    exact round_mono (by positivity) (by gcongr)
  exact (Count.multiply shorter window).floor_divide_le (Count.multiply longer window)
    products base_pos

/-- What drains in a span that is not too long is counted exactly. -/
theorem drained_natCast
    (base_pos : 1 ≤ base)
    (small : span * window < 2 ^ 53) :
    drained (finite window) (finite base) (finite span) =
      finite (span * window / base : ℕ) := by
  unfold drained
  rw [multiply_finite (Nat.cast_nonneg _) (Nat.cast_nonneg _), ← Nat.cast_mul,
    round_natCast small, divide_finite (Nat.cast_nonneg _) (by exact_mod_cast base_pos),
    floor_round_div small base_pos]

end Buffering

namespace Controller

/-! ## What has drained and what has been received -/

section Draining

variable {readings : Set Binary64} {controller : Controller Binary64}
variable {now base : Binary64}

/-- The time since the last report, the wire latency and the window are whole numbers. -/
theorem Sound.exists_spans
    (spaced : FinitelySpaced readings)
    (sound : controller.Sound readings)
    (now_mem : now ∈ readings)
    (known : controller.base = some base) :
    ∃ elapsed milliseconds window : ℕ,
      Time.elapsed controller.updatedAt now = finite elapsed ∧
        Binary64.round elapsed = finite elapsed ∧
        base = finite milliseconds ∧
        1 ≤ milliseconds ∧
        controller.window = finite window ∧
        window ≤ Window.maximum := by
  obtain ⟨milliseconds, base_eq, positive⟩ :=
    (sound.base base known).exists_natCast spaced
  obtain ⟨window, window_eq, _, window_le⟩ := sound.window
  obtain ⟨span, span_eq, _⟩ := spaced.elapsed sound.updatedAt now_mem
  obtain endless | ⟨elapsed, elapsed_eq, kept⟩ :=
    elapsed_cases (spaced.isFinite sound.updatedAt) (spaced.isFinite now_mem)
  · rw [span_eq] at endless
    contradiction
  · exact ⟨elapsed, milliseconds, window, elapsed_eq, kept, base_eq, positive, window_eq,
      window_le⟩

/-- The peer has received no more than what has drained. -/
theorem Sound.receivedSince_le
    (spaced : FinitelySpaced readings)
    (sound : controller.Sound readings)
    (now_mem : now ∈ readings)
    (known : controller.base = some base) :
    controller.receivedSince base now ≤
      Buffering.drained controller.window base
        (Time.elapsed controller.updatedAt now) := by
  obtain ⟨elapsed, milliseconds, window, elapsed_eq, kept, rfl, positive, window_eq, _⟩ :=
    sound.exists_spans spaced now_mem known
  have drained := sound.drained_updatedAt spaced now_mem known
  unfold receivedSince
  rw [elapsed_eq, window_eq] at drained ⊢
  dsimp only
  split_ifs with soon
  · exact drained.zero_le
  · rw [finite_le_finite, Nat.cast_le, not_le] at soon
    obtain ⟨span, span_eq, span_le⟩ := exists_subtract_le kept soon.le
    rw [span_eq]
    exact Buffering.drained_natCast_le positive span_le

/-- In a time that is not too long, they differ by at most a window. -/
theorem Sound.drained_le_receivedSince_add
    (spaced : FinitelySpaced readings)
    (sound : controller.Sound readings)
    (now_mem : now ∈ readings)
    (known : controller.base = some base)
    (short : Time.elapsed controller.updatedAt now < finite (2 ^ 31)) :
    ∃ received drained window : ℕ,
      controller.receivedSince base now = finite received ∧
        Buffering.drained controller.window base
            (Time.elapsed controller.updatedAt now) = finite drained ∧
        controller.window = finite window ∧
        drained ≤ received + window := by
  obtain ⟨elapsed, milliseconds, window, elapsed_eq, _, rfl, positive, window_eq,
    window_le⟩ := sound.exists_spans spaced now_mem known
  rw [elapsed_eq, finite_lt_finite] at short
  have elapsed_lt : elapsed < 2 ^ 31 := by exact_mod_cast short
  have small (span : ℕ) (span_le : span ≤ elapsed) : span * window < 2 ^ 53 := by
    calc span * window ≤ elapsed * Window.maximum := Nat.mul_le_mul span_le window_le
      _ < 2 ^ 53 := by
        unfold Window.maximum
        omega
  unfold receivedSince
  rw [elapsed_eq, window_eq]
  dsimp only
  rw [Buffering.drained_natCast positive (small elapsed le_rfl)]
  split_ifs with soon
  · rw [finite_le_finite, Nat.cast_le] at soon
    refine ⟨0, elapsed * window / milliseconds, window, by simp, rfl, rfl, ?_⟩
    rw [Nat.zero_add]
    exact Nat.div_le_of_le_mul (Nat.mul_le_mul_right window soon)
  · rw [finite_le_finite, Nat.cast_le, not_le] at soon
    obtain ⟨rest, rfl⟩ := Nat.exists_eq_add_of_le soon.le
    have rest_eq : finite (milliseconds + rest : ℕ) - finite milliseconds =
        finite rest := by
      rw [subtract_natCast (by omega) (by omega)]
      push_cast
      rw [add_sub_cancel_left]
    rw [rest_eq, Buffering.drained_natCast positive (small rest (Nat.le_add_left _ _))]
    refine ⟨rest * window / milliseconds, _, window, rfl, rfl, rfl, ?_⟩
    rw [Nat.add_mul, Nat.add_comm, Nat.add_mul_div_left _ _ positive]

/-- What is left of the surplus is what has not drained. -/
theorem Sound.extraNow_eq
    (spaced : FinitelySpaced readings)
    (sound : controller.Sound readings)
    (now_mem : now ∈ readings)
    (known : controller.base = some base)
    {extra : ℕ}
    (extra_eq : controller.extra = finite extra)
    (extra_lt : extra < Arithmetic.ringSize) :
    ∃ gone ≤ extra,
      Arithmetic.smaller
          (Buffering.drained controller.window base
            (Time.elapsed controller.updatedAt now)) (finite extra) = finite gone ∧
        controller.extraNow now = finite (extra - gone : ℕ) := by
  have drained := sound.drained_updatedAt spaced now_mem known
  unfold Controller.extraNow
  rw [known, extra_eq]
  dsimp only
  generalize Buffering.drained controller.window base
    (Time.elapsed controller.updatedAt now) = drained_value at drained ⊢
  obtain rfl | ⟨bytes, rfl⟩ := drained
  · refine ⟨extra, le_rfl, rfl, ?_⟩
    rw [Nat.sub_self, Nat.cast_zero]
    rfl
  · refine ⟨min bytes extra, min_le_right _ _, by rw [smaller_finite, Nat.cast_min], ?_⟩
    split_ifs with all
    · rw [finite_le_finite, Nat.cast_le] at all
      rw [min_eq_right all, Nat.sub_self, Nat.cast_zero]
      rfl
    · rw [finite_le_finite, Nat.cast_le, not_le] at all
      unfold Arithmetic.ringSize at extra_lt
      rw [min_eq_left all.le, subtract_natCast (by omega) (by omega), Nat.cast_sub all.le]

/-- Without a pending probe, what is taken to be on its way lies between what is left of
the surplus and the surplus, and if the last report is not too long ago, it is at most a
window above the former. -/
theorem Sound.exists_inFlight
    (spaced : FinitelySpaced readings)
    (sound : controller.Sound readings)
    (now_mem : now ∈ readings)
    (known : controller.base = some base)
    (pending : controller.pending = [])
    (unanswered : (controller.position == controller.answered.position) = false)
    {extra : ℕ}
    (extra_eq : controller.extra = finite extra)
    (extra_lt : extra < Arithmetic.ringSize) :
    ∃ bytes left window : ℕ,
      controller.inFlight now = finite bytes ∧
        controller.extraNow now = finite left ∧
        controller.window = finite window ∧
        left ≤ bytes ∧
        bytes ≤ extra ∧
        (Time.elapsed controller.updatedAt now < finite (2 ^ 31) →
          bytes ≤ left + window) := by
  obtain ⟨received, received_le, received_eq, inFlight_eq⟩ :=
    sound.inFlight_draining spaced now_mem known pending unanswered extra_eq extra_lt
  obtain ⟨gone, gone_le, gone_eq, extraNow_eq⟩ :=
    sound.extraNow_eq spaced now_mem known extra_eq extra_lt
  obtain ⟨_, _, window, _, _, _, _, window_eq, _⟩ := sound.exists_spans spaced now_mem known
  have receivedCount := sound.receivedSince_count spaced now_mem known
  have goneCount := sound.drained_updatedAt spaced now_mem known
  have received_le_gone : received ≤ gone :=
    receivedCount.smaller_natCast_le goneCount
      (sound.receivedSince_le spaced now_mem known) received_eq gone_eq
  refine ⟨extra - received, extra - gone, window, inFlight_eq, extraNow_eq, window_eq,
    by omega, Nat.sub_le _ _, fun short => ?_⟩
  obtain ⟨peer, drained, size, peer_eq, drained_eq, size_eq, drained_le⟩ :=
    sound.drained_le_receivedSince_add spaced now_mem known short
  rw [peer_eq, smaller_finite, finite.injEq] at received_eq
  rw [drained_eq, smaller_finite, finite.injEq] at gone_eq
  rw [window_eq, finite.injEq, Nat.cast_inj] at size_eq
  have received_min : min peer extra = received := by exact_mod_cast received_eq
  have gone_min : min drained extra = gone := by exact_mod_cast gone_eq
  omega

end Draining

/-! ## A report of nothing new -/

section Report

variable {readings : Set Binary64} {controller : Controller Binary64}
variable {now base total : Binary64}

/-- A report of nothing new that does not reset the controller changes its surplus and
the times that go with it, and nothing else. -/
theorem exists_refreshed
    (same : controller.config.counting.position total = controller.position)
    (noReset : (controller.recordProgress now total).events.any Notice.isReset = false) :
    ∃ busyAt extra, (controller.recordProgress now total).state =
      { controller with busyAt, extra, updatedAt := now } := by
  have noted_eq := controller.noteActivity_eq now (controller.added total)
  obtain ⟨_, reset⟩ | ⟨_, kept⟩ := controller.recordProgress_cases now total
  · rw [reset] at noReset
    contradiction
  · refine ⟨(controller.noteActivity now (controller.added total)).busyAt,
      (controller.noteActivity now (controller.added total)).surplusAfter now
        (controller.added total), ?_⟩
    rw [kept, same, noted_eq]
    rfl

/-- While a probe is pending, the estimate of the bytes on their way reads neither the
surplus nor the time of the last report. -/
theorem inFlight_refreshed
    (busyAt extra updatedAt : Binary64)
    (answering : controller.pending ≠ [] ∨
      (controller.position == controller.answered.position) = true) :
    ({ controller with busyAt, extra, updatedAt } : Controller Binary64).inFlight now =
      controller.inFlight now := by
  unfold inFlight
  dsimp only
  split_ifs with answered
  · rfl
  · obtain ⟨next, rest, pending⟩ :=
      List.exists_cons_of_ne_nil (answering.resolve_right answered)
    rw [pending]
    cases controller.base with
    | none => rfl
    | some base => rfl

/-- Right after a report nothing has been received since. -/
theorem Sound.receivedSince_reported
    (spaced : FinitelySpaced readings)
    (sound : controller.Sound readings)
    (known : controller.base = some base)
    (upToDate : controller.updatedAt = now) :
    controller.receivedSince base now = 0 := by
  obtain ⟨milliseconds, rfl, _⟩ := (sound.base base known).exists_natCast spaced
  have nowFinite := spaced.isFinite sound.updatedAt
  unfold receivedSince
  rw [← upToDate, Time.elapsed_self_of_isFinite nowFinite]
  apply if_pos
  rw [finite_le_finite]
  exact Nat.cast_nonneg milliseconds

/-- Without a pending probe, a report of nothing new takes the estimate of the bytes on
their way down to what is left of the surplus. -/
theorem Sound.inFlight_refreshed
    (spaced : FinitelySpaced readings)
    (sound : controller.Sound readings)
    (stocked : controller.Stocked)
    (now_mem : now ∈ readings)
    (same : controller.config.counting.position total = controller.position)
    (noReset : (controller.recordProgress now total).events.any Notice.isReset = false)
    (known : controller.base = some base)
    (pending : controller.pending = [])
    (unanswered : (controller.position == controller.answered.position) = false)
    {left : ℕ}
    (left_eq : controller.extraNow now = finite left)
    (left_lt : left < Arithmetic.ringSize) :
    (controller.recordProgress now total).state.inFlight now = finite left := by
  have nowFinite := spaced.isFinite now_mem
  have kept_of_known := (stocked.extraNow_refreshed nowFinite same).2
  have refreshedSound := sound.recordProgress spaced now_mem total
  obtain ⟨busyAt, extra, refreshed_eq⟩ := exists_refreshed same noReset
  rw [refreshed_eq] at kept_of_known refreshedSound ⊢
  have stored := (kept_of_known base known).1.trans left_eq
  obtain ⟨received, _, received_eq, inFlight_eq⟩ := refreshedSound.inFlight_draining
    spaced now_mem known pending unanswered stored left_lt
  rw [refreshedSound.receivedSince_reported spaced known rfl, literal_zero, smaller_finite,
    min_eq_left (Nat.cast_nonneg left), finite.injEq] at received_eq
  rw [inFlight_eq, ← (by exact_mod_cast received_eq : 0 = received), Nat.sub_zero]

end Report

/-! ## Any history -/

/-- What a report of nothing new does to the congestion state.  Take any controller that
was started, any reports of any totals at finite readings, and one more report, of the
position, that does not reset the controller.  If a probe is pending, or the answered one
stands at the position, then the estimate of the bytes on their way and the congestion
state are what they were.  Otherwise, if the wire latency is known, no two readings are
too far apart for a double, and the surplus is less than the ring, the report takes the
estimate down to what is left of the surplus.  So it can end congestion and never begins
it, and it changes nothing as long as nothing has drained.  If the last report is not too
long ago, no more than a window is taken away. -/
theorem congestion_after_refresh
    (options : Options Binary64)
    (verifyByDefault : Bool)
    (start now : Binary64)
    (controller : Controller Binary64)
    (history : List (Binary64 × Action Binary64))
    (started : Controller.start options verifyByDefault start = .ok controller)
    (finiteReadings : ∀ step ∈ history, step.1.IsFinite)
    (noReset : ((controller.after history).recordProgress now
      (controller.after history).position).events.any Notice.isReset = false) :
    let before := controller.after history
    let refreshed := (before.recordProgress now before.position).state
    (before.pending ≠ [] ∨ before.position = before.answered.position →
        refreshed.inFlight now = before.inFlight now ∧
          refreshed.isCongested now = before.isCongested now) ∧
      (FinitelySpaced {reading | reading ∈ start :: history.map Prod.fst ++ [now]} →
        before.base ≠ none →
        before.pending = [] →
        before.position ≠ before.answered.position →
        before.extra < finite Arithmetic.ringSize →
          ∃ bytes left window : ℕ,
            before.inFlight now = finite bytes ∧
              refreshed.inFlight now = finite left ∧
              before.extraNow now = finite left ∧
              left ≤ bytes ∧
              (before.extraNow now = before.extra → bytes = left) ∧
              (refreshed.isCongested now = true → before.isCongested now = true) ∧
              before.window = finite window ∧
              (Time.elapsed before.updatedAt now < finite (2 ^ 31) →
                bytes ≤ left + window)) := by
  intro before refreshed
  have stocked : before.Stocked := (stocked_of_start started).after finiteReadings
  obtain ⟨busyAt, extra, refreshed_eq⟩ :=
    exists_refreshed stocked.counting_position noReset
  have window_eq : refreshed.window = before.window := by
    simp only [refreshed]
    rw [refreshed_eq]
  constructor
  · intro answering
    have answered : before.pending ≠ [] ∨
        (before.position == before.answered.position) = true := by
      obtain ⟨position, position_eq, _⟩ := stocked.position
      refine answering.imp_right fun same => ?_
      rw [← same, position_eq, finite_beq_finite, decide_eq_true_eq]
    have inFlight_eq : refreshed.inFlight now = before.inFlight now := by
      simp only [refreshed]
      rw [refreshed_eq]
      exact inFlight_refreshed busyAt extra now answered
    refine ⟨inFlight_eq, ?_⟩
    unfold isCongested
    rw [window_eq, inFlight_eq]
  · intro spaced known pending unanswered small
    obtain ⟨base, known⟩ := Option.ne_none_iff_exists'.mp known
    obtain ⟨sound, now_mem⟩ := sound_at_now started spaced
    have apart : (before.position == before.answered.position) = false := by
      obtain ⟨position, position_eq, _⟩ := sound.position
      obtain ⟨answered, answered_eq, _⟩ := sound.answered.position
      rw [position_eq, answered_eq] at unanswered ⊢
      rw [finite_beq_finite, decide_eq_false_iff_not]
      exact fun same => unanswered (congrArg finite same)
    obtain ⟨surplus, surplus_eq, _⟩ := sound.extra
    rw [surplus_eq, finite_lt_finite, Nat.cast_lt] at small
    obtain ⟨bytes, left, window, bytes_eq, left_eq, windowBytes, left_le, bytes_le,
      bytes_le_add⟩ := sound.exists_inFlight spaced now_mem known pending apart surplus_eq
        small
    have refreshed_inFlight : refreshed.inFlight now = finite left :=
      sound.inFlight_refreshed spaced stocked now_mem stocked.counting_position noReset known
        pending apart left_eq ((left_le.trans bytes_le).trans_lt small)
    refine ⟨bytes, left, window, bytes_eq, refreshed_inFlight, left_eq, left_le, ?_, ?_,
      windowBytes, bytes_le_add⟩
    · intro kept
      rw [left_eq, surplus_eq, finite.injEq, Nat.cast_inj] at kept
      omega
    · unfold isCongested
      rw [refreshed_inFlight, bytes_eq, window_eq, windowBytes, decide_eq_true_eq,
        decide_eq_true_eq, finite_le_finite, finite_le_finite]
      intro full
      exact full.trans (by exact_mod_cast left_le)

/-- A round trip, and a burst of more than a window after it. -/
def burst : List (Binary64 × Action Binary64) :=
  [(0, .probeSent),
    (finite 20, .probeAnswered),
    (finite 20, .recordProgress 0),
    (finite 20, .recordProgress (finite 20000))]

/-- With a probe behind the burst a report changes nothing, and without one it takes the
estimate down. -/
theorem congestion_after_refresh_burst :
    let alone := byDefault.after burst
    let answering := byDefault.after (burst ++ [(finite 20, .probeSent)])
    let refreshed := (answering.recordProgress (finite 30) answering.position).state
    ((∀ step ∈ burst ++ [(finite 20, .probeSent)], step.1.IsFinite) ∧
        answering.pending ≠ [] ∧
        (answering.recordProgress (finite 30) answering.position).events.any
          Notice.isReset = false) ∧
      (refreshed.inFlight (finite 30) = answering.inFlight (finite 30) ∧
        refreshed.isCongested (finite 30) = answering.isCongested (finite 30)) ∧
      ((alone.recordProgress (finite 30) alone.position).events.any Notice.isReset =
          false ∧
        alone.base = some (finite 20) ∧
        alone.pending = [] ∧
        Time.elapsed alone.updatedAt (finite 30) < finite (2 ^ 31)) ∧
      ∃ bytes left window : ℕ,
        alone.inFlight (finite 30) = finite bytes ∧
          (alone.recordProgress (finite 30) alone.position).state.inFlight (finite 30) =
            finite left ∧
          left ≤ bytes ∧
          bytes ≤ left + window := by
  have finiteReadings : ∀ step ∈ burst ++ [(finite 20, .probeSent)],
      step.1.IsFinite := by
    decide +kernel
  have aloneFinite : ∀ step ∈ burst, step.1.IsFinite := by decide +kernel
  have close : ∀ earlier ∈ 0 :: burst.map Prod.fst ++ [finite 30],
      ∀ later ∈ 0 :: burst.map Prod.fst ++ [finite 30],
        later - earlier < infinity false := by
    decide +kernel
  have waiting : (byDefault.after (burst ++ [(finite 20, .probeSent)])).pending ≠ [] :=
    List.length_pos_iff.mp (by decide +kernel)
  have known : (byDefault.after burst).base = some (finite 20) := by decide +kernel
  have noProbe : (byDefault.after burst).pending = [] :=
    List.length_eq_zero_iff.mp (by decide +kernel)
  have short : Time.elapsed (byDefault.after burst).updatedAt (finite 30) <
      finite (2 ^ 31) := by
    decide +kernel
  have answeringKept := congestion_after_refresh ⟨none, none⟩ true 0 (finite 30) byDefault
    (burst ++ [(finite 20, .probeSent)]) start_byDefault finiteReadings
    (by decide +kernel)
  obtain ⟨_, aloneLowered⟩ := congestion_after_refresh ⟨none, none⟩ true 0 (finite 30)
    byDefault burst start_byDefault aloneFinite (by decide +kernel)
  obtain ⟨bytes, left, window, bytes_eq, left_eq, _, left_le, _, _, _, bytes_le⟩ :=
    aloneLowered close (known ▸ Option.some_ne_none _) noProbe (by decide +kernel)
      (by decide +kernel)
  exact ⟨⟨finiteReadings, waiting, by decide +kernel⟩, answeringKept.1 (.inl waiting),
    ⟨by decide +kernel, known, noProbe, short⟩, bytes, left, window, bytes_eq, left_eq,
    left_le, bytes_le short⟩

/-- Half a round trip after the burst all of it still counts as on its way, and it fills
the window.  A report of nothing new finds that half a window has drained, and congestion
is over. -/
theorem congestion_ended_by_refresh :
    let before := byDefault.after burst
    let outcome := before.recordProgress (finite 30) before.position
    (0 :: burst.map Prod.fst ++ [finite 30]).Pairwise (· ≤ ·) ∧
      before.base = some (finite 20) ∧
      outcome.events.any Notice.isReset = false ∧
      before.inFlight (finite 30) = finite 20000 ∧
      before.isCongested (finite 30) = true ∧
      outcome.state.inFlight (finite 30) = finite 11808 ∧
      outcome.state.isCongested (finite 30) = false := by
  decide +kernel

end Controller

end Backpressure
