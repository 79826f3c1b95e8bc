import Backpressure.Proofs.Exact.Decay

/-!
# Draining by polling

A report drains the surplus by the whole milliseconds since the last one, and the next
span begins at its own reading.  So a fraction of a millisecond between two reports never
counts.  Reports at whole milliseconds only lose what rounding the drained bytes loses,
but reports that follow each other within a millisecond drain nothing at all.
-/

namespace Backpressure

open Arithmetic

/-! ## Spans between readings -/

namespace Time

/-- The spans from each reading to the next one. -/
def spans (start : ℚ) : List ℚ → List ℚ
  | [] => []
  | now :: rest => elapsed start now :: spans now rest

@[simp] theorem spans_nil (start : ℚ) : spans start [] = [] := rfl

@[simp] theorem spans_cons (start now : ℚ) (rest : List ℚ) :
    spans start (now :: rest) = elapsed start now :: spans now rest := rfl

@[simp] theorem length_spans (start : ℚ) (readings : List ℚ) :
    (spans start readings).length = readings.length := by
  induction readings generalizing start with
  | nil => rfl
  | cons now rest inductionHypothesis =>
      rw [spans_cons, List.length_cons, inductionHypothesis, List.length_cons]

theorem spans_nonneg (start : ℚ) (readings : List ℚ) :
    ∀ span ∈ spans start readings, 0 ≤ span := by
  induction readings generalizing start with
  | nil => exact fun span member => absurd member List.not_mem_nil
  | cons now rest inductionHypothesis =>
      exact List.forall_mem_cons.mpr
        ⟨elapsed_nonneg start now, inductionHypothesis now⟩

section Elapsed

variable {start now last : ℚ}

theorem elapsed_of_le (forward : start ≤ now) :
    elapsed start now = (⌊now - start⌋ : ℚ) := by
  unfold elapsed
  rw [larger_exact]
  exact max_eq_right (floor_nonneg (sub_nonneg.mpr forward))

/-- A reading in between can lose a millisecond, but no more. -/
theorem elapsed_split
    (first_le : start ≤ now)
    (last_le : now ≤ last) :
    elapsed start now + elapsed now last ≤ elapsed start last ∧
      elapsed start last ≤ elapsed start now + elapsed now last + 1 := by
  have span_eq : last - start = (now - start) + (last - now) := by ring
  have gained := Int.le_floor_add (now - start) (last - now)
  have lost := Int.le_floor_add_floor (now - start) (last - now)
  rw [elapsed_of_le first_le, elapsed_of_le last_le,
    elapsed_of_le (first_le.trans last_le), span_eq]
  constructor
  · exact_mod_cast gained
  · exact_mod_cast sub_le_iff_le_add.mp lost

/-- A span of whole milliseconds counts in full. -/
theorem elapsed_of_whole
    (forward : start ≤ now)
    (whole : Whole (now - start)) :
    elapsed start now = now - start := by
  obtain ⟨number, number_eq⟩ := whole
  rw [elapsed_of_le forward, number_eq, Int.floor_intCast]

/-- Less than a millisecond does not count. -/
theorem elapsed_of_short
    (forward : start ≤ now)
    (short : now - start < 1) :
    elapsed start now = 0 := by
  rw [elapsed_of_le forward,
    Int.floor_eq_zero_iff.mpr ⟨sub_nonneg.mpr forward, short⟩, Int.cast_zero]

end Elapsed

/-- Every reading in between can lose a millisecond, but no more. -/
theorem sum_spans_bounds
    {start last : ℚ}
    {readings : List ℚ}
    (forward : (start :: (readings ++ [last])).Pairwise (· ≤ ·)) :
    (spans start (readings ++ [last])).sum ≤ elapsed start last ∧
      elapsed start last ≤
        (spans start (readings ++ [last])).sum + readings.length := by
  induction readings generalizing start with
  | nil => simp
  | cons now rest inductionHypothesis =>
      obtain ⟨first_le, later⟩ := List.pairwise_cons.mp forward
      obtain ⟨sum_le, le_sum⟩ := inductionHypothesis later
      have last_le : now ≤ last := List.rel_of_pairwise_cons later (by simp)
      obtain ⟨gained, lost⟩ := elapsed_split (first_le now List.mem_cons_self) last_le
      rw [List.cons_append, spans_cons, List.sum_cons, List.length_cons, Nat.cast_succ]
      constructor
      · linarith
      · linarith

/-- Readings whole milliseconds apart lose nothing. -/
theorem sum_spans_of_whole
    {start last : ℚ}
    {readings : List ℚ}
    (forward : (start :: (readings ++ [last])).Pairwise (· ≤ ·))
    (whole : ∀ reading ∈ readings ++ [last], Whole (reading - start)) :
    (spans start (readings ++ [last])).sum = elapsed start last := by
  induction readings generalizing start with
  | nil => simp
  | cons now rest inductionHypothesis =>
      obtain ⟨first_le, later⟩ := List.pairwise_cons.mp forward
      obtain ⟨nowWhole, laterWhole⟩ := List.forall_mem_cons.mp whole
      have fromNow : ∀ reading ∈ rest ++ [last], Whole (reading - now) := by
        intro reading member
        have difference := (laterWhole reading member).sub nowWhole
        rwa [sub_sub_sub_cancel_right] at difference
      have last_mem : last ∈ rest ++ [last] := by simp
      have last_le : start ≤ last := first_le last (List.mem_cons_of_mem _ last_mem)
      rw [List.cons_append, spans_cons, List.sum_cons,
        inductionHypothesis later fromNow,
        elapsed_of_whole (first_le now List.mem_cons_self) nowWhole,
        elapsed_of_whole (List.rel_of_pairwise_cons later last_mem)
          (fromNow last last_mem),
        elapsed_of_whole last_le (laterWhole last last_mem)]
      ring

/-- Readings less than a millisecond apart count no time. -/
theorem spans_of_short
    {start : ℚ}
    {readings : List ℚ}
    (forward : (start :: readings).Pairwise (· ≤ ·))
    (short : (start :: readings).IsChain fun earlier later => later - earlier < 1) :
    ∀ span ∈ spans start readings, span = 0 := by
  induction readings generalizing start with
  | nil => exact fun span member => absurd member List.not_mem_nil
  | cons now rest inductionHypothesis =>
      obtain ⟨first_le, later⟩ := List.pairwise_cons.mp forward
      obtain ⟨first_short, laterShort⟩ := List.isChain_cons_cons.mp short
      exact List.forall_mem_cons.mpr
        ⟨elapsed_of_short (first_le now List.mem_cons_self) first_short,
          inductionHypothesis later laterShort⟩

end Time

/-! ## What spans drain -/

namespace Buffering

/-- What several spans drain, one after the other. -/
def drainedOver (window base : ℚ) (spans : List ℚ) : ℚ :=
  (spans.map (drained window base)).sum

@[simp] theorem drainedOver_nil (window base : ℚ) : drainedOver window base [] = 0 := rfl

@[simp] theorem drainedOver_cons (window base span : ℚ) (rest : List ℚ) :
    drainedOver window base (span :: rest) =
      drained window base span + drainedOver window base rest := rfl

section DrainedOver

variable {window base : ℚ} {spans : List ℚ}

theorem drainedOver_nonneg
    (window_pos : 0 < window)
    (base_pos : 0 < base)
    (nonneg : ∀ span ∈ spans, 0 ≤ span) :
    0 ≤ drainedOver window base spans := by
  unfold drainedOver
  apply List.sum_nonneg
  rw [List.forall_mem_map]
  exact fun span member => drained_nonneg window_pos base_pos (nonneg span member)

/-- Spans without time drain nothing. -/
theorem drainedOver_of_zero (zero : ∀ span ∈ spans, span = 0) :
    drainedOver window base spans = 0 := by
  unfold drainedOver
  apply List.sum_eq_zero
  rw [List.forall_mem_map]
  intro span member
  rw [zero span member]
  unfold drained
  rw [zero_mul, zero_div, floor_exact, Int.floor_zero, Int.cast_zero]

variable (window base spans)

theorem drainedOver_whole : Whole (drainedOver window base spans) := by
  induction spans with
  | nil => exact .zero
  | cons span rest inductionHypothesis => exact (Whole.floor _).add inductionHypothesis

/-- Every span can lose a byte against the rate, but no more. -/
theorem drainedOver_bounds :
    drainedOver window base spans ≤ spans.sum * window / base ∧
      spans.sum * window / base ≤ drainedOver window base spans + spans.length := by
  induction spans with
  | nil => simp
  | cons span rest inductionHypothesis =>
      obtain ⟨drained_le, le_drained⟩ := inductionHypothesis
      have share_le : drained window base span ≤ span * window / base :=
        Int.floor_le _
      have lt_share : span * window / base < drained window base span + 1 :=
        Int.lt_floor_add_one _
      rw [drainedOver_cons, List.sum_cons, add_mul, add_div, List.length_cons,
        Nat.cast_succ]
      constructor
      · linarith
      · linarith

/-- Several spans drain no more than their sum. -/
theorem drainedOver_le :
    drainedOver window base spans ≤ drained window base spans.sum :=
  (drainedOver_whole window base spans).le_floor_iff.mpr
    (drainedOver_bounds window base spans).1

end DrainedOver

end Buffering

namespace Controller

/-! ## Reports without new bytes -/

/-- Reports of one total at several readings. -/
def polls (total : ℚ) (readings : List ℚ) : List (ℚ × Action ℚ) :=
  readings.map fun now => (now, .recordProgress total)

section Polls

variable {controller : Controller ℚ}

/-- On the ring, the last total is its own position. -/
theorem WholeOnRing.position_eq (ringed : controller.WholeOnRing) :
    controller.config.counting.position controller.position = controller.position := by
  rw [ringed.counting]
  exact ringed.onRing

/-- The last total adds no bytes. -/
theorem WholeOnRing.added_position (ringed : controller.WholeOnRing) :
    controller.added controller.position = 0 := by
  unfold added distance
  rw [ringed.position_eq, ringed.counting]
  change Arithmetic.residue (controller.position - controller.position) = 0
  rw [sub_self]
  exact residue_of_onRing .zero le_rfl (by norm_num [ringSize])

theorem idleTimeout_pos : 0 < controller.idleTimeout := by
  unfold idleTimeout
  cases controller.base with
  | none => norm_num [idleTimeoutFloor]
  | some base =>
      dsimp only
      rw [larger_exact]
      exact lt_max_of_lt_right (by norm_num [idleTimeoutFloor])

/-- As long as there is a surplus, a report of the last total does nothing but drain
it. -/
theorem WholeOnRing.recordProgress_of_surplus
    (ringed : controller.WholeOnRing)
    {base : ℚ}
    (known : controller.base = some base)
    (surplus : 0 < controller.extra)
    (now : ℚ) :
    (controller.recordProgress now controller.position).state =
      { controller with
        busyAt := now
        extra := max 0 (controller.extra - Buffering.drained controller.window base
          (Time.elapsed controller.updatedAt now))
        updatedAt := now } := by
  have noted_eq : controller.noteActivity now (controller.added controller.position) =
      { controller with busyAt := now } :=
    if_pos (.inr surplus)
  obtain ⟨idle, _⟩ | ⟨_, kept⟩ := controller.recordProgress_cases now controller.position
  · -- A surplus counts as activity right now, which is no pause.
    rw [noted_eq, Time.elapsed_of_le le_rfl, sub_self, Int.floor_zero,
      Int.cast_zero] at idle
    exact absurd idle idleTimeout_pos.not_gt
  · rw [kept, noted_eq, ringed.position_eq, ringed.added_position]
    simp only [Outcome.state_done, reported, surplusAfter, known, larger_exact, add_zero]

/-- Without a surplus, a report of the last total leaves none. -/
theorem WholeOnRing.extra_recordProgress_of_drained
    (ringed : controller.WholeOnRing)
    (drained : controller.extra = 0)
    (now : ℚ) :
    (controller.recordProgress now controller.position).state.extra = 0 := by
  have checkedWhole := ringed.toWhole.checked now controller.position
  have checked_extra : (controller.checked now controller.position).extra = 0 := by
    rw [extra_checked, drained]
  rw [state_recordProgress, ringed.added_position]
  change (controller.checked now controller.position).surplusAfter now 0 = 0
  unfold Controller.surplusAfter
  cases known : (controller.checked now controller.position).base with
  | none => exact checked_extra
  | some base =>
      have drained_nonneg := Buffering.drained_nonneg checkedWhole.window.pos
        (checkedWhole.base_pos base known)
        (Time.elapsed_nonneg (controller.checked now controller.position).updatedAt now)
      dsimp only
      rw [larger_exact, checked_extra, add_zero, zero_sub]
      exact max_eq_left (neg_nonpos.mpr drained_nonneg)

/-- What is reported next is the same total again. -/
theorem WholeOnRing.after_polls_cons
    (ringed : controller.WholeOnRing)
    (now : ℚ)
    (rest : List ℚ) :
    let polled := (controller.recordProgress now controller.position).state
    controller.after (polls controller.position (now :: rest)) =
      polled.after (polls polled.position rest) := by
  intro polled
  have position_eq : polled.position = controller.position := by
    simp only [polled]
    rw [position_recordProgress, ringed.position_eq]
  rw [position_eq]
  rfl

theorem WholeOnRing.extra_after_polls_of_drained
    (ringed : controller.WholeOnRing)
    (drained : controller.extra = 0)
    (readings : List ℚ) :
    (controller.after (polls controller.position readings)).extra = 0 := by
  induction readings generalizing controller with
  | nil => exact drained
  | cons now rest inductionHypothesis =>
      rw [ringed.after_polls_cons]
      exact inductionHypothesis (ringed.perform now (.recordProgress controller.position))
        (ringed.extra_recordProgress_of_drained drained now)

/-- Reports of the last total drain one span after the other. -/
theorem WholeOnRing.extra_after_polls
    (ringed : controller.WholeOnRing)
    {base : ℚ}
    (known : controller.base = some base)
    (readings : List ℚ) :
    (controller.after (polls controller.position readings)).extra =
      max 0 (controller.extra - Buffering.drainedOver controller.window base
        (Time.spans controller.updatedAt readings)) := by
  have drained_nonneg (start : ℚ) (readings : List ℚ) :
      0 ≤ Buffering.drainedOver controller.window base (Time.spans start readings) :=
    Buffering.drainedOver_nonneg ringed.window.pos (ringed.base_pos base known)
      (Time.spans_nonneg start readings)
  induction readings generalizing controller with
  | nil =>
      change controller.extra = max 0 (controller.extra - 0)
      rw [sub_zero, max_eq_right ringed.extra_nonneg]
  | cons now rest inductionHypothesis =>
      obtain none | surplus := ringed.extra_nonneg.eq_or_lt
      · rw [ringed.extra_after_polls_of_drained none.symm, ← none, zero_sub]
        exact (max_eq_left (neg_nonpos.mpr (drained_nonneg _ _))).symm
      · have polled := ringed.perform now (.recordProgress controller.position)
        change (controller.recordProgress now controller.position).state.WholeOnRing
          at polled
        have polled_eq := ringed.recordProgress_of_surplus known surplus now
        rw [ringed.after_polls_cons]
        rw [polled_eq] at polled ⊢
        rw [inductionHypothesis polled known drained_nonneg, Time.spans_cons,
          Buffering.drainedOver_cons, ← sub_sub]
        dsimp only
        generalize controller.extra - _ = left
        -- Once nothing is left, the later spans have nothing to drain.
        rw [← max_sub_sub_right, ← max_assoc, zero_sub,
          max_eq_left (neg_nonpos.mpr (drained_nonneg now rest))]

/-- Polling drains at most what a single report at the last reading drains, and all but
what rounding loses: a byte a report, and the fractions of a millisecond between them. -/
theorem WholeOnRing.polled_bounds
    (ringed : controller.WholeOnRing)
    {base : ℚ}
    (known : controller.base = some base)
    {readings : List ℚ}
    {last : ℚ}
    (forward : (controller.updatedAt :: (readings ++ [last])).Pairwise (· ≤ ·)) :
    let polled := (controller.after (polls controller.position (readings ++ [last]))).extra
    let once := (controller.recordProgress last controller.position).state.extra
    let missed := Time.elapsed controller.updatedAt last -
      (Time.spans controller.updatedAt (readings ++ [last])).sum
    once ≤ polled ∧
      polled ≤ once + (readings.length + 1) + missed * controller.window / base := by
  intro polled once missed
  let spans := Time.spans controller.updatedAt (readings ++ [last])
  let elapsed := Time.elapsed controller.updatedAt last
  have window_pos := ringed.window.pos
  have base_pos := ringed.base_pos base known
  obtain ⟨sum_le, _⟩ : spans.sum ≤ elapsed ∧ _ := Time.sum_spans_bounds forward
  obtain ⟨_, le_drained⟩ := Buffering.drainedOver_bounds controller.window base spans
  have length_eq : spans.length = readings.length + 1 := by
    simp only [spans, Time.length_spans, List.length_append, List.length_singleton]
  rw [length_eq, Nat.cast_succ] at le_drained
  have drained_le : Buffering.drainedOver controller.window base spans ≤
      Buffering.drained controller.window base elapsed :=
    (Buffering.drainedOver_le _ _ _).trans
      (Buffering.drained_mono window_pos base_pos sum_le)
  have drained_last_le : Buffering.drained controller.window base elapsed ≤
      elapsed * controller.window / base :=
    Int.floor_le _
  have split_eq : elapsed * controller.window / base =
      spans.sum * controller.window / base + missed * controller.window / base := by
    simp only [missed]
    ring
  have missed_nonneg : 0 ≤ missed * controller.window / base := by
    have nonneg := sub_nonneg.mpr sum_le
    positivity
  have polled_eq : polled = max 0 (controller.extra -
      Buffering.drainedOver controller.window base spans) :=
    ringed.extra_after_polls known (readings ++ [last])
  have once_eq : once = max 0 (controller.extra -
      (Buffering.drained controller.window base elapsed + 0)) :=
    ringed.extra_after_polls known [last]
  rw [add_zero] at once_eq
  have once_nonneg : 0 ≤ once := once_eq ▸ le_max_left _ _
  have left_le : controller.extra - Buffering.drained controller.window base elapsed ≤
      once := once_eq ▸ le_max_right _ _
  constructor
  · rw [polled_eq, once_eq]
    exact max_le_max le_rfl (sub_le_sub_left drained_le _)
  · rw [polled_eq]
    apply max_le
    · positivity
    · linarith

end Polls

/-! ## Any history -/

/-- Frequent polling drains the surplus too slowly.  Take any controller that was
started, any reports of any positions at any clock readings, and let the wire latency be
known then.  Report the last total again at several readings in a row, and compare the
surplus with what one such report at the last of them leaves.  It is no smaller.  It
exceeds it by at most a byte for each report and by what drains in the time that was
missed, the fractions of a millisecond between the readings, which is less than a
millisecond a report.  So reports at whole milliseconds lose a byte each at most; but
reports that follow each other within a millisecond never drain anything. -/
theorem polling_misses_fractions
    (options : Options ℚ)
    (verifyByDefault : Bool)
    (start base last : ℚ)
    (controller : Controller ℚ)
    (history : List (ℚ × Action ℚ))
    (readings : List ℚ)
    (started : Controller.start options verifyByDefault start = .ok controller)
    (known : (controller.after history).base = some base)
    (forward : ((controller.after history).updatedAt :: (readings ++ [last])).Pairwise
      (· ≤ ·)) :
    let before := controller.after history
    let polled := (before.after (polls before.position (readings ++ [last]))).extra
    let once := (before.recordProgress last before.position).state.extra
    let missed := Time.elapsed before.updatedAt last -
      (Time.spans before.updatedAt (readings ++ [last])).sum
    once ≤ polled ∧
      polled ≤ once + (readings.length + 1) + missed * before.window / base ∧
      0 ≤ missed ∧
      missed ≤ readings.length ∧
      ((∀ reading ∈ readings ++ [last], Arithmetic.Whole (reading - before.updatedAt)) →
        polled ≤ once + (readings.length + 1)) ∧
      ((before.updatedAt :: (readings ++ [last])).IsChain
          (fun earlier later => later - earlier < 1) →
        polled = before.extra) := by
  intro before polled once missed
  have ringed : before.WholeOnRing := (wholeOnRing_of_start started).after history
  obtain ⟨once_le, polled_le⟩ := ringed.polled_bounds known forward
  obtain ⟨sum_le, le_sum⟩ := Time.sum_spans_bounds forward
  refine ⟨once_le, polled_le, sub_nonneg.mpr sum_le, sub_le_iff_le_add'.mpr le_sum,
    ?_, ?_⟩
  · intro whole
    have missed_eq : missed = 0 :=
      sub_eq_zero.mpr (Time.sum_spans_of_whole forward whole).symm
    have bound : polled ≤
        once + (readings.length + 1) + missed * before.window / base := polled_le
    rwa [missed_eq, zero_mul, zero_div, add_zero] at bound
  · intro short
    have polled_eq : polled = max 0 (before.extra - Buffering.drainedOver before.window
        base (Time.spans before.updatedAt (readings ++ [last]))) :=
      ringed.extra_after_polls known (readings ++ [last])
    rw [polled_eq, Buffering.drainedOver_of_zero (Time.spans_of_short forward short),
      sub_zero, max_eq_right ringed.extra_nonneg]

/-- A burst of ten thousand bytes once the wire latency is known. -/
def overbuffered : List (ℚ × Action ℚ) :=
  [(0, .probeSent),
    (20, .probeAnswered),
    (20, .recordProgress 0),
    (20, .recordProgress 10000)]

/-- Four polls in two milliseconds leave the surplus as it was. -/
theorem polling_misses_fractions_overbuffered :
    let before := exactDefault.after overbuffered
    (before.after (polls before.position [41 / 2, 21, 43 / 2, 22])).extra =
        before.extra ∧
      before.extra = 10000 := by
  intro before
  have known : before.base = some 20 := by decide +kernel
  have forward : (before.updatedAt :: [41 / 2, 21, 43 / 2, 22]).Pairwise (· ≤ ·) := by
    decide +kernel
  have short : (before.updatedAt :: [41 / 2, 21, 43 / 2, 22]).IsChain
      fun earlier later => later - earlier < 1 := by
    decide +kernel
  obtain ⟨_, _, _, _, _, kept⟩ := polling_misses_fractions ⟨none, none⟩ true 0 20 22
    exactDefault overbuffered [41 / 2, 21, 43 / 2] start_exactDefault known forward
  exact ⟨kept short, by decide +kernel⟩

/-- So a byte a report does not bound what polling leaves over: a single report after two
milliseconds drains 1638 bytes, and the four polls drain none. -/
theorem polling_within_byte_a_report_refuted :
    let before := exactDefault.after overbuffered
    let polled :=
      (before.after (polls before.position [41 / 2, 21, 43 / 2, 22])).extra
    let once := (before.recordProgress 22 before.position).state.extra
    before.base = some 20 ∧ before.updatedAt = 20 ∧
      polled = 10000 ∧ once = 8362 ∧ ¬polled ≤ once + 4 := by
  decide +kernel

end Controller
end Backpressure
