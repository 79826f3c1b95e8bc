import Backpressure.Proofs.Controller.Journal
import Backpressure.Proofs.Controller.Ledger

/-!
# The wire latency

The wire latency is the minimum of all round trips since the last idle reset.  An
answer counts even if its probe is older than the window or than the reset itself, so
that between two resets the wire latency never increases.
-/

namespace Backpressure

open Binary64

/-! ## Minima at any readings -/

/-- The minimum of a list, which only an empty list lacks.  What is not a number
prevails. -/
def IsMinimum (values : List Binary64) (known : Option Binary64) : Prop :=
  nan ∈ values ∧ known = some nan ∨ IsLowest values known

/-- Lowering a minimum by a further value gives the minimum with that value. -/
theorem IsMinimum.append
    {values : List Binary64}
    {known : Option Binary64}
    (isMinimum : IsMinimum values known)
    (value : Binary64) :
    IsMinimum (values ++ [value]) (some (Controller.lowered known value)) := by
  by_cases number : value = nan
  · obtain rfl := number
    refine .inl ⟨List.mem_append_right _ (List.mem_singleton.mpr rfl), ?_⟩
    cases known with
    | none => rfl
    | some low => rw [Controller.lowered, smaller_nan_right]
  · obtain ⟨member, rfl⟩ | isLowest := isMinimum
    · refine .inl ⟨List.mem_append_left _ member, ?_⟩
      rw [Controller.lowered, smaller_nan_left]
    · exact .inr (isLowest.append number)

/-- What comes after a value is not above it, or it is not a number. -/
def NotAbove (before after : Binary64) : Prop :=
  after = nan ∨ after ≤ before

theorem NotAbove.refl (value : Binary64) : NotAbove value value := by
  by_cases number : value = nan
  · exact .inl number
  · exact .inr (Binary64.le_refl number)

theorem NotAbove.trans
    {first second third : Binary64}
    (upper : NotAbove first second)
    (lower : NotAbove second third) :
    NotAbove first third := by
  obtain third_eq | third_le := lower
  · exact .inl third_eq
  obtain rfl | second_le := upper
  · exact absurd rfl (ne_nan_of_le third_le).2
  · exact .inr (Binary64.le_trans third_le second_le)

/-- The smaller of two values is not above the first. -/
theorem notAbove_smaller (first second : Binary64) :
    NotAbove first (Arithmetic.smaller first second) := by
  by_cases firstNumber : first = nan
  · rw [firstNumber, smaller_nan_left]
    exact .inl rfl
  by_cases secondNumber : second = nan
  · rw [secondNumber, smaller_nan_right]
    exact .inl rfl
  obtain ⟨smaller_eq, _⟩ | ⟨smaller_eq, second_le⟩ :=
    smaller_cases firstNumber secondNumber
  · rw [smaller_eq]
    exact NotAbove.refl first
  · rw [smaller_eq]
    exact .inr second_le

/-! ## Answers and their probes -/

section Zip

variable {First Second : Type} {firsts : List First} {seconds : List Second}

/-- A shorter list meets only the beginning of a longer one. -/
theorem zip_take_length (le : seconds.length ≤ firsts.length) :
    (firsts.take seconds.length).zip seconds = firsts.zip seconds := by
  have zip_eq : firsts.zip seconds = _ := List.zip_eq_zip_take_min
  rw [min_eq_right le, List.take_length] at zip_eq
  exact zip_eq.symm

theorem zip_append_left
    (le : seconds.length ≤ firsts.length)
    (more : List First) :
    (firsts ++ more).zip seconds = firsts.zip seconds := by
  have le_append : seconds.length ≤ (firsts ++ more).length := by
    rw [List.length_append]
    exact Nat.le_add_right_of_le le
  rw [← zip_take_length le_append, List.take_append_of_le_length le,
    zip_take_length le]

theorem zip_append_singleton
    {first : First}
    (next : firsts[seconds.length]? = some first)
    (second : Second) :
    firsts.zip (seconds ++ [second]) =
      firsts.zip seconds ++ [(first, second)] := by
  obtain ⟨lt, -⟩ := List.getElem?_eq_some_iff.mp next
  have le_append : (seconds ++ [second]).length ≤ firsts.length := by
    rw [List.length_append]
    exact lt
  rw [← zip_take_length le_append, List.length_append,
    List.length_singleton, List.take_add_one, next,
    List.zip_append (List.length_take_of_le lt.le), zip_take_length lt.le]
  rfl

end Zip

namespace Journal

/-- The round trips since the last idle reset.  An answer belongs to the probe at the
same place of the journal. -/
def roundTrips {α : Type} [Arithmetic α] (journal : Journal α) : List α :=
  ((journal.sent.zip journal.arrivals).drop journal.forgotten).map
    fun answer => Controller.roundTrip answer.1.probe answer.2

section RoundTrips

variable {α : Type} [Arithmetic α]
variable {journal : Journal α} {controller : Controller α} {now : α}

theorem Describes.length_zip (describes : journal.Describes controller) :
    (journal.sent.zip journal.arrivals).length = journal.arrivals.length := by
  rw [List.length_zip, min_eq_right describes.arrivals_le]

/-- An idle reset drops all round trips. -/
theorem Describes.roundTrips_of_reset
    (describes : journal.Describes controller)
    {total : α}
    (reset : (controller.recordProgress now total).events.any
      Notice.isReset = true) :
    (journal.entered controller now (.recordProgress total)).roundTrips =
      [] := by
  simp only [roundTrips, entered, reset, if_true]
  rw [← describes.length_zip, List.drop_length, List.map_nil]

theorem roundTrips_of_no_reset
    {total : α}
    (noReset : (controller.recordProgress now total).events.any
      Notice.isReset = false) :
    (journal.entered controller now (.recordProgress total)).roundTrips =
      journal.roundTrips := by
  simp only [roundTrips, entered, noReset, Bool.false_eq_true, if_false]

/-- A probe without an answer has no round trip. -/
theorem Describes.roundTrips_probeSent
    (describes : journal.Describes controller) :
    (journal.entered controller now .probeSent).roundTrips =
      journal.roundTrips := by
  simp only [roundTrips, entered]
  rw [zip_append_left describes.arrivals_le]

/-- The answer to a pending probe adds its round trip. -/
theorem Describes.roundTrips_probeAnswered
    (describes : journal.Describes controller)
    {probe : Probe α}
    {rest : List (Probe α)}
    (pending : controller.pending = probe :: rest) :
    (journal.entered controller now .probeAnswered).roundTrips =
      journal.roundTrips ++ [Controller.roundTrip probe now] := by
  have waiting : controller.pending ≠ [] := by simp [pending]
  have next := (describes.answered_probeAnswered waiting now).1
  rw [Controller.answered_probeAnswered, pending, List.getElem?_map] at next
  obtain ⟨sending, next_eq, rfl⟩ := Option.map_eq_some_iff.mp next
  have forgotten_le := describes.forgotten_le
  rw [← describes.length_zip] at forgotten_le
  simp only [roundTrips, entered, describes.arrivals_lt_iff.mpr waiting, if_true]
  rw [zip_append_singleton next_eq, List.drop_append_of_le_length forgotten_le,
    List.map_append]
  rfl

end RoundTrips

section Minimum

variable {journal : Journal Binary64} {controller : Controller Binary64}

/-- Every report keeps the wire latency the minimum of the round trips. -/
theorem Describes.isMinimum_perform
    (describes : journal.Describes controller)
    (isMinimum : IsMinimum journal.roundTrips controller.base)
    (now : Binary64)
    (action : Controller.Action Binary64) :
    IsMinimum (journal.entered controller now action).roundTrips
      (controller.perform now action).state.base := by
  cases action with
  | recordProgress total =>
      change IsMinimum _ (controller.recordProgress now total).state.base
      obtain ⟨_, reset⟩ | ⟨_, kept⟩ :=
        controller.recordProgress_cases now total
      · have isReset : (controller.recordProgress now total).events.any
            Notice.isReset = true := by
          rw [reset]
          rfl
        rw [describes.roundTrips_of_reset isReset, reset]
        exact .inr rfl
      · have noReset : (controller.recordProgress now total).events.any
            Notice.isReset = false := by
          rw [kept]
          rfl
        rw [roundTrips_of_no_reset noReset, kept, controller.noteActivity_eq]
        exact isMinimum
  | probeSent =>
      rw [describes.roundTrips_probeSent]
      exact isMinimum
  | probeAnswered =>
      change IsMinimum _ (controller.probeAnswered now).state.base
      cases pending : controller.pending with
      | nil =>
          have noProbe : ¬journal.arrivals.length < journal.sent.length := by
            rw [describes.arrivals_lt_iff, not_not]
            exact pending
          rw [Controller.probeAnswered_of_stray pending]
          simp only [entered, if_neg noProbe]
          exact isMinimum
      | cons probe rest =>
          rw [describes.roundTrips_probeAnswered pending,
            Controller.base_probeAnswered pending]
          exact isMinimum.append _

/-- So it is after any history. -/
theorem Describes.isMinimum_after
    (describes : journal.Describes controller)
    (isMinimum : IsMinimum journal.roundTrips controller.base)
    (history : List (Binary64 × Controller.Action Binary64)) :
    IsMinimum (journal.after controller history).roundTrips
      (controller.after history).base := by
  induction history generalizing journal controller with
  | nil => exact isMinimum
  | cons step rest inductionHypothesis =>
      exact inductionHypothesis (describes.perform step.1 step.2)
        (describes.isMinimum_perform isMinimum step.1 step.2)

end Minimum

end Journal

namespace Controller

/-! ## Between two resets -/

section Resets

variable {controller : Controller Binary64} {known : Binary64}

/-- A report without an idle reset does not increase the wire latency. -/
theorem base_perform_of_no_reset
    (base : controller.base = some known)
    (now : Binary64)
    {action : Action Binary64}
    (noReset : (controller.perform now action).events.any
      Notice.isReset = false) :
    ∃ low, (controller.perform now action).state.base = some low ∧
      NotAbove known low := by
  cases action with
  | recordProgress total =>
      change (controller.recordProgress now total).events.any _ = _ at noReset
      refine ⟨known, ?_, NotAbove.refl known⟩
      change (controller.recordProgress now total).state.base = _
      obtain ⟨_, reset⟩ | ⟨_, kept⟩ :=
        controller.recordProgress_cases now total
      · rw [reset] at noReset
        contradiction
      · rw [kept, controller.noteActivity_eq]
        exact base
  | probeSent => exact ⟨known, base, NotAbove.refl known⟩
  | probeAnswered =>
      change ∃ low, (controller.probeAnswered now).state.base = _ ∧ _
      cases pending : controller.pending with
      | nil =>
          rw [probeAnswered_of_stray pending]
          exact ⟨known, base, NotAbove.refl known⟩
      | cons probe rest =>
          rw [base_probeAnswered pending, base]
          exact ⟨_, rfl, notAbove_smaller _ _⟩

/-- Neither does a history without one. -/
theorem base_after_of_no_reset
    (base : controller.base = some known)
    {history : List (Binary64 × Action Binary64)}
    (noReset : ∀ outcome ∈ controller.outcomes history,
      outcome.events.any Notice.isReset = false) :
    ∃ low, (controller.after history).base = some low ∧
      NotAbove known low := by
  induction history generalizing controller known with
  | nil => exact ⟨known, base, NotAbove.refl known⟩
  | cons step rest inductionHypothesis =>
      obtain ⟨now, action⟩ := step
      obtain ⟨noneNow, noneLater⟩ := List.forall_mem_cons.mp noReset
      obtain ⟨middle, middle_eq, middleNotAbove⟩ :=
        base_perform_of_no_reset base now noneNow
      obtain ⟨low, low_eq, lowNotAbove⟩ :=
        inductionHypothesis middle_eq noneLater
      exact ⟨low, low_eq, middleNotAbove.trans lowNotAbove⟩

end Resets

/-! ## The minimum since the last reset -/

/-- The wire latency is the minimum of the round trips since the last idle reset.
Take any controller that was started and any reports at any readings, and let a
journal list the probes that were sent and the answers that found one pending.  The
wire latency is unknown exactly if no such answer arrived since the start or since the
last idle reset, and otherwise it is the lowest of the round trips that these answers
measured, each at least a millisecond; a round trip that is not a number makes it
none.  So between two idle resets a known wire latency stays known and never
increases. -/
theorem base_lowest_since_reset
    (options : Options Binary64)
    (verifyByDefault : Bool)
    (start : Binary64)
    (controller : Controller Binary64)
    (history : List (Binary64 × Action Binary64))
    (started : Controller.start options verifyByDefault start = .ok controller) :
    let journal := (Journal.opened start).after controller history
    IsMinimum journal.roundTrips (controller.after history).base ∧
      ∀ earlier later known, history = earlier ++ later →
        (∀ outcome ∈ (controller.after earlier).outcomes later,
          outcome.events.any Notice.isReset = false) →
        (controller.after earlier).base = some known →
          ∃ low, (controller.after history).base = some low ∧
            NotAbove known low := by
  intro journal
  constructor
  · have unknown : controller.base = none := by
      obtain ⟨config, rfl, _⟩ := start_ok started
      rfl
    exact (Journal.describes_of_start started).isMinimum_after
      (unknown ▸ .inr rfl) history
  · rintro earlier later known rfl noReset base
    rw [after_append]
    exact base_after_of_no_reset base noReset

/-- A round trip that an idle reset drops, an answer to a probe that is older than the
reset, a shorter round trip, and one for which the clock runs back. -/
def acrossReset : List (Binary64 × Action Binary64) :=
  [(0, .probeSent),
    (0, .probeSent),
    (finite 30, .probeAnswered),
    (finite 200, .recordProgress 0),
    (finite 205, .probeAnswered),
    (finite 206, .probeSent),
    (finite 226, .probeAnswered),
    (finite 227, .probeSent),
    (finite 220, .probeAnswered)]

theorem base_lowest_since_reset_acrossReset :
    let journal := (Journal.opened 0).after byDefault acrossReset
    journal.roundTrips = [finite 205, finite 20, finite 1] ∧
      IsMinimum journal.roundTrips (byDefault.after acrossReset).base ∧
      ∃ low, (byDefault.after acrossReset).base = some low ∧
        NotAbove (finite 205) low := by
  intro journal
  obtain ⟨isMinimum, between⟩ := base_lowest_since_reset ⟨none, none⟩ true 0
    byDefault acrossReset start_byDefault
  have noReset : ∀ outcome ∈ (byDefault.after (acrossReset.take 5)).outcomes
      (acrossReset.drop 5), outcome.events.any Notice.isReset = false := by
    decide +kernel
  have base : (byDefault.after (acrossReset.take 5)).base =
      some (finite 205) := by
    decide +kernel
  exact ⟨by decide +kernel, isMinimum,
    between (acrossReset.take 5) (acrossReset.drop 5) _ rfl noReset base⟩

end Controller
end Backpressure
