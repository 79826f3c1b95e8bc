import Backpressure.Proofs.Controller.Burst
import Backpressure.Proofs.Gate.Answers
import Backpressure.Proofs.Gate.HandOver

/-!
# A flush respects the window

Everything that a flush hands over is on its way until the flush ends.  So it
goes on only as long as its bytes are fewer than the window, and it never hands
over more than the window and its last chunk.  The estimates must have something
to go by, and the bytes on their way must not go around the ring: two histories
show flushes that go beyond the window otherwise.
-/

namespace Backpressure
namespace Gate

/-! ## Flushes of an action -/

section Flushes

variable {α : Type} [Arithmetic α]

/-- The gates at which the attempts of an alarm begin to flush. -/
def attemptEntries (clock : α) : List Unit → Gate α → List (Gate α)
  | [], _ => []
  | () :: rest, gate =>
    gate.resetRetry.state ::
      attemptEntries clock rest (gate.resetRetry.andThen (flush clock)).state

/-- The gates at which an action begins to flush. -/
def entries (gate : Gate α) (clock : α) : Action α → List (Gate α)
  | .dataIn chunk => [gate.enqueue chunk]
  | .probeAnswered => [gate.answeredAt clock]
  | .close | .connect => []
  | .retry =>
    match Timers.earliest? gate.retry.timers.armed with
    | none => []
    | some timer =>
      attemptEntries clock gate.retry.listeners
        { gate with retry := gate.retry.ring timer }

/-- The gate after it passed a number of chunks from the front of its queue. -/
def passed (now : α) : ℕ → Gate α → Gate α
  | 0, gate => gate
  | count + 1, gate =>
    match gate.queue with
    | [] => gate
    | chunk :: rest => passed now count (gate.pass now chunk rest).state

/-- The bytes of some chunks. -/
def bytes (chunks : List Chunk) : ℕ :=
  (chunks.map ByteArray.size).sum

@[simp] theorem bytes_nil : bytes [] = 0 := rfl

@[simp] theorem bytes_cons (chunk : Chunk) (rest : List Chunk) :
    bytes (chunk :: rest) = chunk.size + bytes rest := List.sum_cons

theorem bytes_append (first second : List Chunk) :
    bytes (first ++ second) = bytes first + bytes second := by
  simp [bytes]

/-- The first chunks of a list are not larger than the list. -/
theorem bytes_take_le (count : ℕ) (chunks : List Chunk) :
    bytes (chunks.take count) ≤ bytes chunks := by
  have split := bytes_append (chunks.take count) (chunks.drop count)
  rw [List.take_append_drop] at split
  omega

/-- A hand-over that goes on hands over the chunk at the front. -/
theorem handedOver_pass
    (now : α)
    (chunk : Chunk)
    (rest : List Chunk)
    (gate : Gate α) :
    handedOver (gate.pass now chunk rest).events = [chunk] := by
  have accounts := accounts_pass now chunk rest gate
  unfold Accounts at accounts
  rw [queue_pass] at accounts
  exact List.append_cancel_right (accounts : _ = [chunk] ++ rest)

/-- Before each chunk that a faultless hand-over hands over, the window had room
and the chunk was passed without a fault. -/
theorem free_passed
    {now : α}
    {gate : Gate α}
    {chunks : List Chunk}
    (queue : gate.queue = chunks)
    (faultless : (gate.handOver now chunks).fault = none)
    {count : ℕ}
    (handed : count < (handedOver (gate.handOver now chunks).events).length) :
    (gate.passed now count).controller.isCongested now = false ∧
      ∃ chunk rest,
        (gate.passed now count).queue = chunk :: rest ∧
          ((gate.passed now count).pass now chunk rest).fault = none := by
  induction chunks generalizing gate count with
  | nil => contradiction
  | cons chunk rest inductionHypothesis =>
      unfold handOver at faultless handed
      split at faultless
      · next congested =>
          rw [if_pos congested] at handed
          contradiction
      · next free =>
          rw [Outcome.fault_andThen_eq_none_iff] at faultless
          rw [if_neg free, Outcome.andThen_of_faultless faultless.1,
            handedOver_append, handedOver_pass, List.length_append,
            List.length_singleton] at handed
          cases count with
          | zero =>
              exact ⟨Bool.eq_false_of_not_eq_true free, chunk, rest, queue,
                faultless.1⟩
          | succ count =>
              unfold passed
              rw [queue]
              exact inductionHypothesis (queue_pass now chunk rest gate)
                faultless.2 (by omega)

/-- One more pass comes after the ones before. -/
theorem passed_succ
    {now : α}
    {gate : Gate α}
    {count : ℕ}
    {chunk : Chunk}
    {rest : List Chunk}
    (queue : (gate.passed now count).queue = chunk :: rest) :
    gate.passed now (count + 1) =
      ((gate.passed now count).pass now chunk rest).state := by
  induction count generalizing gate with
  | zero =>
      change gate.queue = chunk :: rest at queue
      simp only [passed, queue]
  | succ count inductionHypothesis =>
      cases front : gate.queue with
      | nil =>
          have stuck : gate.passed now (count + 1) = gate := by
            simp only [passed, front]
          rw [stuck, front] at queue
          contradiction
      | cons first others =>
          have step : ∀ later, gate.passed now (later + 1) =
              passed now later (gate.pass now first others).state := by
            intro later
            simp only [passed, front]
          rw [step count] at queue ⊢
          rw [step (count + 1)]
          exact inductionHypothesis queue

/-- Passing takes chunks from the front of the queue. -/
theorem queue_passed (now : α) (count : ℕ) (gate : Gate α) :
    (gate.passed now count).queue = gate.queue.drop count := by
  induction count generalizing gate with
  | zero => rfl
  | succ count inductionHypothesis =>
      unfold passed
      cases front : gate.queue with
      | nil => simpa using front
      | cons chunk rest =>
          dsimp only
          rw [inductionHypothesis, queue_pass, List.drop_succ_cons]

theorem bytes_take_succ
    {chunks : List Chunk}
    {count : ℕ}
    {chunk : Chunk}
    {rest : List Chunk}
    (front : chunks.drop count = chunk :: rest) :
    bytes (chunks.take (count + 1)) =
      bytes (chunks.take count) + chunk.size := by
  have item : chunks[count]? = some chunk := by
    rw [← List.head?_drop, front, List.head?_cons]
  rw [List.take_add_one, item, bytes_append]
  rfl

/-- A faultless flush hands over what its loop hands over. -/
theorem handedOver_flush
    {clock now : α}
    {gate : Gate α}
    (now_eq : gate.reading clock = now)
    (faultless : (gate.flush clock).fault = none) :
    handedOver (gate.flush clock).events =
      handedOver ((gate.refreshed now).handOver now gate.queue).events := by
  have whole := accounts_flush clock gate
  have loop : Accounts gate.queue
      ((gate.refreshed now).handOver now gate.queue) :=
    accounts_handOver now rfl
  have queue : (gate.flush clock).state.queue = (gate.relieved now).queue := by
    obtain ⟨_, ⟨_, state_eq⟩ | ⟨_, state_eq⟩⟩ :=
      flush_of_faultless now_eq faultless
    · rw [state_eq, state_settle]
    · rw [state_eq, state_settle, state_probe]
  unfold Accounts at whole loop
  change _ ++ (gate.relieved now).queue = _ at loop
  rw [queue, ← loop] at whole
  exact List.append_cancel_right whole

/-- A flush hands over chunks from the front of the queue. -/
theorem take_handedOver_flush
    (clock : α)
    (gate : Gate α)
    {count : ℕ}
    (count_le : count ≤ (handedOver (gate.flush clock).events).length) :
    (handedOver (gate.flush clock).events).take count =
      gate.queue.take count := by
  have accounts := accounts_flush clock gate
  unfold Accounts at accounts
  rw [← accounts, List.take_append_of_le_length count_le]

end Flushes

open Binary64

variable {readings : Set Binary64} {reading : Binary64 → Binary64}

/-! ## Gates that flush -/

/-- A gate that is about to flush at a reading, and does so without a fault. -/
structure Flushes
    (readings : Set Binary64)
    (reading : Binary64 → Binary64)
    (clock : Binary64)
    (gate : Gate Binary64) : Prop
    extends Drives (Controller.Sound readings) reading gate where
  /-- The newest probe marks the last byte. -/
  marked : Marked gate
  /-- The flush does not fail. -/
  faultless : (gate.flush clock).fault = none

theorem kept_sound
    (spaced : FinitelySpaced readings)
    {now : Binary64}
    (now_mem : now ∈ readings) :
    KeptAt (Controller.Sound readings) now :=
  fun _ action sound => (sound.perform spaced now_mem action).2

/-- Every attempt of a faultless alarm flushes. -/
theorem flushes_attempt
    {clock : Binary64}
    (kept : KeptAt (Controller.Sound readings) (reading clock))
    {listeners : List Unit}
    {gate : Gate Binary64}
    (drives : Drives (Controller.Sound readings) reading gate)
    (marked : Marked gate)
    (faultless : (attempt clock listeners gate).fault = none) :
    ∀ entry ∈ attemptEntries clock listeners gate,
      Flushes readings reading clock entry := by
  induction listeners generalizing gate with
  | nil =>
      intro entry member
      contradiction
  | cons listener rest inductionHypothesis =>
      unfold attempt at faultless
      rw [Outcome.fault_andThen_eq_none_iff,
        Outcome.fault_andThen_eq_none_iff] at faultless
      obtain ⟨⟨stopped, flushed⟩, attempted⟩ := faultless
      have resetDrives : Drives (Controller.Sound readings) reading
          gate.resetRetry.state := drives.of_eq rfl rfl
      have resetMarked : Marked gate.resetRetry.state := marked.of_eq rfl rfl
      have state_eq :=
        Outcome.state_andThen_of_faultless stopped (flush clock)
      intro entry member
      unfold attemptEntries at member
      cases member with
      | head => exact ⟨resetDrives, resetMarked, flushed⟩
      | tail _ later =>
          refine inductionHypothesis ?_ ?_ attempted entry later
          · rw [state_eq]
            exact resetDrives.flush kept
          · rw [state_eq]
            exact (resetMarked.flush flushed).marked

theorem flushes_entries
    {clock : Binary64}
    (kept : KeptAt (Controller.Sound readings) (reading clock))
    {gate : Gate Binary64}
    (drives : Drives (Controller.Sound readings) reading gate)
    (marked : Marked gate)
    {action : Action Binary64}
    (faultless : (gate.perform clock action).fault = none) :
    ∀ entry ∈ gate.entries clock action,
      Flushes readings reading clock entry := by
  intro entry member
  cases action with
  | dataIn chunk =>
      rw [List.mem_singleton.mp member]
      exact ⟨drives.of_eq rfl rfl, marked.of_eq rfl rfl, faultless⟩
  | probeAnswered =>
      unfold perform Gate.probeAnswered at faultless
      rw [Outcome.fault_andThen_eq_none_iff] at faultless
      rw [List.mem_singleton.mp member]
      have answered : Drives (Controller.Sound readings) reading
          (gate.answeredAt clock) := by
        refine ⟨?_, drives.reading_eq⟩
        unfold answeredAt
        rw [drives.reading_eq]
        exact kept _ .probeAnswered drives.controller
      exact ⟨answered, marked.answeredAt clock, faultless.2⟩
  | close => contradiction
  | connect => contradiction
  | retry =>
      unfold perform at faultless
      unfold entries at member
      cases earliest : Timers.earliest? gate.retry.timers.armed with
      | none =>
          rw [earliest] at member
          contradiction
      | some timer =>
          rw [earliest] at faultless member
          have rungDrives : Drives (Controller.Sound readings) reading
              { gate with retry := gate.retry.ring timer } :=
            drives.of_eq rfl rfl
          have rungMarked : Marked
              { gate with retry := gate.retry.ring timer } :=
            marked.of_eq rfl rfl
          exact flushes_attempt kept rungDrives rungMarked faultless entry
            member

/-! ## Bursts of a flush -/

section Loop

variable {clock now : Binary64} {gate : Gate Binary64}

/-- When a flush begins to hand over chunks, a burst begins. -/
theorem Flushes.burst
    (spaced : FinitelySpaced readings)
    (now_mem : now ∈ readings)
    (flushes : Flushes readings reading clock gate) :
    Controller.Burst readings now (gate.refreshed now).controller 0
      (gate.refreshed now).controller := by
  have sound := flushes.controller.recordProgress spaced now_mem
    (gate.position : Binary64)
  exact sound.burst (flushes.controller.calm_recordProgress _)
    (Controller.updatedAt_recordProgress _ _ _)

/-- Before each chunk that a flush hands over, the window had room and the
chunk was passed without a fault. -/
theorem Flushes.free_passed
    (flushes : Flushes readings reading clock gate)
    (now_eq : gate.reading clock = now)
    {count : ℕ}
    (count_lt : count < (handedOver (gate.flush clock).events).length) :
    ((gate.refreshed now).passed now count).controller.isCongested now = false ∧
      ∃ chunk rest,
        ((gate.refreshed now).passed now count).queue = chunk :: rest ∧
          (((gate.refreshed now).passed now count).pass now chunk rest).fault =
            none := by
  obtain ⟨loop, -⟩ := flush_of_faultless now_eq flushes.faultless
  rw [handedOver_flush now_eq flushes.faultless] at count_lt
  have queue_eq : (gate.refreshed now).queue = gate.queue := rfl
  exact Gate.free_passed queue_eq loop count_lt

/-- The chunks handed over so far are no larger than all of the flush. -/
theorem bytes_take_queue_le
    {count : ℕ}
    (count_le : count ≤ (handedOver (gate.flush clock).events).length) :
    bytes (gate.queue.take count) ≤ bytes (handedOver (gate.flush clock).events) := by
  rw [← take_handedOver_flush clock gate count_le]
  exact bytes_take_le count _

/-- As long as a flush goes on, its chunks make up a burst. -/
theorem Flushes.burst_passed
    (spaced : FinitelySpaced readings)
    (now_mem : now ∈ readings)
    (flushes : Flushes readings reading clock gate)
    (now_eq : gate.reading clock = now)
    (few : bytes (handedOver (gate.flush clock).events) < 2 ^ 31)
    {count : ℕ}
    (count_le : count ≤ (handedOver (gate.flush clock).events).length) :
    Controller.Burst readings now (gate.refreshed now).controller
        (bytes (gate.queue.take count))
        ((gate.refreshed now).passed now count).controller ∧
      ((gate.refreshed now).passed now count).position =
        (gate.position + bytes (gate.queue.take count)) %
          Arithmetic.ringSize := by
  induction count with
  | zero =>
      rw [List.take_zero, bytes_nil, add_zero]
      exact ⟨flushes.burst spaced now_mem,
        (Nat.mod_eq_of_lt flushes.marked.onRing).symm⟩
  | succ count inductionHypothesis =>
      obtain ⟨burst, position_eq⟩ := inductionHypothesis (by omega)
      obtain ⟨_, chunk, rest, queue, passed⟩ :=
        flushes.free_passed now_eq (Nat.lt_of_succ_le count_le)
      have front : gate.queue.drop count = chunk :: rest := by
        rw [← queue, queue_passed]
        rfl
      have size_lt : chunk.size < Arithmetic.ringSize := by
        have size_le := bytes_take_queue_le count_le
        rw [bytes_take_succ front] at size_le
        unfold Arithmetic.ringSize
        omega
      have start_position :
          (gate.refreshed now).controller.position = finite gate.position :=
        (tracked_report flushes.marked.onRing flushes.marked.windowed
          now).position
      have position_next :
          (((gate.refreshed now).passed now count).take chunk rest).position =
            (gate.position + bytes (gate.queue.take count) + chunk.size) %
              Arithmetic.ringSize := by
        change (((gate.refreshed now).passed now count).position + _) % _ = _
        rw [position_eq, Nat.mod_add_mod]
      rw [passed_succ queue, state_pass_of_faultless passed,
        bytes_take_succ front]
      refine ⟨?_, ?_⟩
      · dsimp only
        rw [position_next]
        exact burst.report spaced now_mem start_position size_lt
      · dsimp only
        rw [position_next, add_assoc]

/-- If no probe is pending when a flush begins to hand over, the probe answered
last marks the position. -/
theorem Flushes.level
    (flushes : Flushes readings reading clock gate)
    (answered : (gate.refreshed now).controller.pending = []) :
    (gate.refreshed now).controller.position =
      (gate.refreshed now).controller.answered.position := by
  have position := (tracked_report flushes.marked.onRing
    flushes.marked.windowed now).position
  have newest := flushes.marked.newest
  have pending : gate.controller.pending = [] := by
    simpa [refreshed] using answered
  rw [Controller.newest, pending] at newest
  have answered_eq : (gate.refreshed now).controller.answered =
      gate.controller.answered := by
    simp [refreshed]
  rw [answered_eq]
  exact position.trans newest.symm

/-- A flush goes on only as long as its bytes are fewer than the window. -/
theorem Flushes.bytes_lt_window
    (spaced : FinitelySpaced readings)
    (now_mem : now ∈ readings)
    (flushes : Flushes readings reading clock gate)
    (now_eq : gate.reading clock = now)
    (few : bytes (handedOver (gate.flush clock).events) < 2 ^ 31)
    (tracked : (gate.refreshed now).controller.base ≠ none ∨
      (gate.refreshed now).controller.pending ≠ [])
    (room : (gate.refreshed now).controller.unanswered +
      bytes (handedOver (gate.flush clock).events) < Arithmetic.ringSize)
    {window : ℕ}
    (window_eq : (gate.refreshed now).controller.window = finite window)
    {count : ℕ}
    (count_lt : count < (handedOver (gate.flush clock).events).length) :
    bytes (gate.queue.take count) < window := by
  obtain ⟨burst, -⟩ :=
    flushes.burst_passed spaced now_mem now_eq few count_lt.le
  obtain ⟨stillFree, -⟩ := flushes.free_passed now_eq count_lt
  obtain ⟨free, -⟩ :=
    flushes.free_passed now_eq ((Nat.zero_le count).trans_lt count_lt)
  have startSound := (flushes.burst spaced now_mem).sound
  have taken_le := bytes_take_queue_le count_lt.le
  have taken_room : (gate.refreshed now).controller.unanswered +
      bytes (gate.queue.take count) < Arithmetic.ringSize := by
    have taken_le : (bytes (gate.queue.take count) : ℚ) ≤
        bytes (handedOver (gate.flush clock).events) := by
      exact_mod_cast taken_le
    linarith
  exact burst.sent_lt_window spaced now_mem startSound free stillFree
    (taken_le.trans_lt few) flushes.level tracked taken_room window_eq

/-- Every flush of a faultless history runs on a gate whose numbers are within
their range. -/
theorem flushes_of_history
    {options : Options Binary64}
    {verifyByDefault : Bool}
    {start : Binary64}
    {controller : Controller Binary64}
    {link : Link}
    {history : List (Binary64 × Action Binary64)}
    {action : Action Binary64}
    (started : Controller.start options verifyByDefault start = .ok controller)
    (spaced : FinitelySpaced
      (readingsDuring start reading (history ++ [(clock, action)])))
    (faultless : (fresh controller link reading).Faultless
      (history ++ [(clock, action)])) :
    ∀ entry ∈ ((fresh controller link reading).after history).entries clock
        action,
      Flushes (readingsDuring start reading (history ++ [(clock, action)]))
        reading clock entry := by
  have started_sound : controller.Sound (readingsDuring start reading
      (history ++ [(clock, action)])) :=
    Controller.sound_of_start List.mem_cons_self started
  have readings_mem : ∀ step ∈ history ++ [(clock, action)],
      reading step.1 ∈ readingsDuring start reading
        (history ++ [(clock, action)]) := by
    intro step member
    exact List.mem_cons_of_mem _ (List.mem_map_of_mem member)
  generalize readingsDuring start reading (history ++ [(clock, action)]) =
    readings at spaced started_sound readings_mem ⊢
  obtain ⟨before, last⟩ := faultless_append.mp faultless
  obtain ⟨marked, -⟩ := marked_after (marked_fresh started link reading)
    (fun chunks => absurd rfl chunks) before
  have fresh_drives : Drives (Controller.Sound readings) reading
      (fresh controller link reading) := ⟨started_sound, rfl⟩
  have drives := fresh_drives.after fun step member =>
    kept_sound spaced (readings_mem step (List.mem_append_left _ member))
  have now_mem := readings_mem (clock, action) (by simp)
  exact flushes_entries (kept_sound spaced now_mem) drives marked
    (faultless_cons.mp last).1

end Loop

/-- One flush respects the window.  Take any flush of any faultless history of
which no two clock readings are too far apart for their difference to be a double.
Let it hand over fewer than 2 ^ 31 bytes, and let the wire latency be known or a
probe be pending when it begins to hand over; and let the bytes that are then
unanswered, together with those of the flush, not fill the ring.  Then the window
does not change while chunks are handed over, every chunk after the first is handed
over only if the bytes before it are fewer than the window, and so all of them are
fewer than the window and the last chunk together. -/
theorem burst_below_window
    (options : Options Binary64)
    (verifyByDefault : Bool)
    (start : Binary64)
    (controller : Controller Binary64)
    (link : Link)
    (reading : Binary64 → Binary64)
    (history : List (Binary64 × Action Binary64))
    (clock : Binary64)
    (action : Action Binary64)
    (entry : Gate Binary64)
    (started : Controller.start options verifyByDefault start = .ok controller)
    (spaced : FinitelySpaced
      (readingsDuring start reading (history ++ [(clock, action)])))
    (faultless : (fresh controller link reading).Faultless
      (history ++ [(clock, action)]))
    (flushes : entry ∈
      ((fresh controller link reading).after history).entries clock action)
    (few : bytes (handedOver (entry.flush clock).events) < 2 ^ 31)
    (tracked : (entry.refreshed (reading clock)).controller.base ≠ none ∨
      (entry.refreshed (reading clock)).controller.pending ≠ [])
    (room : (entry.refreshed (reading clock)).controller.unanswered +
      bytes (handedOver (entry.flush clock).events) < Arithmetic.ringSize) :
    let sent := handedOver (entry.flush clock).events
    ∃ window : ℕ,
      (∀ count ≤ sent.length,
        ((entry.refreshed (reading clock)).passed (reading clock)
          count).controller.window = finite window) ∧
      (∀ count, 1 ≤ count → count < sent.length →
        bytes (sent.take count) < window) ∧
      ∀ earlier last, sent = earlier ++ [last] →
        bytes sent < window + last.size := by
  intro sent
  have flushing := flushes_of_history started spaced faultless entry flushes
  have now_mem : reading clock ∈ readingsDuring start reading
      (history ++ [(clock, action)]) :=
    List.mem_cons_of_mem _ (List.mem_map.mpr ⟨(clock, action), by simp, rfl⟩)
  have now_eq : entry.reading clock = reading clock := by
    rw [flushing.reading_eq]
  obtain ⟨window, window_eq, _⟩ :=
    (flushing.burst spaced now_mem).sound.window
  have below : ∀ count, count < sent.length →
      bytes (sent.take count) < window := by
    intro count count_lt
    have taken := take_handedOver_flush clock entry count_lt.le
    rw [taken]
    exact flushing.bytes_lt_window spaced now_mem now_eq few tracked room
      window_eq count_lt
  refine ⟨window, ?_, fun count _ => below count, ?_⟩
  · intro count count_le
    obtain ⟨burst, -⟩ :=
      flushing.burst_passed spaced now_mem now_eq few count_le
    rw [burst.window, window_eq]
  · intro earlier last sent_eq
    have earlier_lt := below earlier.length (by simp [sent_eq])
    rw [sent_eq, List.take_left] at earlier_lt
    rw [sent_eq, bytes_append, bytes_cons, bytes_nil]
    omega

/-- Four chunks at once, of which the last two have to wait. -/
def fourChunks : List (Binary64 × Action Binary64) :=
  threeChunks ++ [(0, .dataIn ⟨Array.replicate 600 0⟩)]

/-- The gate at which the answer to the first probe of `fourChunks` begins to
flush. -/
def fourChunksEntry : Gate Binary64 :=
  ((fresh .byDefault (.reliable true) id).after fourChunks).answeredAt
    (finite 20)

theorem burst_below_window_fourChunks :
    (handedOver (fourChunksEntry.flush (finite 20)).events).length = 2 ∧
      ∃ window : ℕ,
        (fourChunksEntry.refreshed (finite 20)).controller.window =
            finite window ∧
          bytes ((handedOver
            (fourChunksEntry.flush (finite 20)).events).take 1) < window := by
  have spaced : FinitelySpaced (readingsDuring 0 id
      (fourChunks ++ [(finite 20, .probeAnswered)])) := by
    have close : ∀ earlier ∈ ([0, 0, 0, 0, 0, finite 20] : List Binary64),
        ∀ later ∈ ([0, 0, 0, 0, 0, finite 20] : List Binary64),
          later - earlier < infinity false := by
      decide +kernel
    exact close
  obtain ⟨faultless, few, tracked, room, two⟩ :
      (fresh .byDefault (.reliable true) id).Faultless
          (fourChunks ++ [(finite 20, .probeAnswered)]) ∧
        bytes (handedOver (fourChunksEntry.flush (finite 20)).events) <
          2 ^ 31 ∧
        (fourChunksEntry.refreshed (finite 20)).controller.base ≠ none ∧
        (fourChunksEntry.refreshed (finite 20)).controller.unanswered +
          bytes (handedOver (fourChunksEntry.flush (finite 20)).events) <
            Arithmetic.ringSize ∧
        (handedOver (fourChunksEntry.flush (finite 20)).events).length = 2 := by
    decide +kernel
  obtain ⟨window, window_eq, below, _⟩ := burst_below_window ⟨none, none⟩ true 0
    .byDefault (.reliable true) id fourChunks (finite 20) .probeAnswered
    fourChunksEntry Controller.start_byDefault spaced faultless
    List.mem_cons_self few (.inl tracked) room
  refine ⟨two, window, window_eq 0 (Nat.zero_le _), below 1 le_rfl ?_⟩
  rw [two]
  exact Nat.one_lt_two

/-- Chunks that wait for an answer while the gate is closed. -/
def longPause : List (Binary64 × Action Binary64) :=
  [(0, .dataIn ⟨Array.replicate 100 0⟩),
    (finite 10, .dataIn ⟨Array.replicate 20000 0⟩),
    (finite 10, .dataIn ⟨Array.replicate 9000 0⟩),
    (finite 10, .dataIn ⟨Array.replicate 9000 0⟩),
    (finite 10, .dataIn ⟨Array.replicate 9000 0⟩),
    (finite 20, .probeAnswered),
    (finite 20, .close)]

/-- The gate at which the last answer after `longPause` begins to flush. -/
def longPauseEntry : Gate Binary64 :=
  ((fresh .byDefault (.reliable true) id).after longPause).answeredAt
    (finite 200)

/-- An answer after a history makes a gate flush beyond the window: nothing fails,
and the flush hands over fewer than 2 ^ 31 bytes, but it goes on when those before
fill the window already. -/
structure Overshoots
    (gate : Gate Binary64)
    (history : List (Binary64 × Action Binary64))
    (now : Binary64)
    (entry : Gate Binary64) : Prop where
  /-- No action fails. -/
  faultless : gate.Faultless (history ++ [(now, .probeAnswered)])
  /-- Here the answer makes the gate flush. -/
  flushes : entry ∈ (gate.after history).entries now .probeAnswered
  /-- The flush hands over fewer bytes than half the ring has. -/
  few : bytes (handedOver (entry.flush now).events) < 2 ^ 31
  /-- Some chunk after the first is handed over with the window full. -/
  beyond : ¬∀ count, 1 ≤ count →
    count < (handedOver (entry.flush now).events).length →
    finite (bytes ((handedOver (entry.flush now).events).take count)) <
      ((entry.refreshed now).passed now count).controller.window

/-- Without a wire latency and a pending probe nothing holds a flush back.  If
the last answer comes after a long pause, the report at the beginning of the
flush forgets the wire latency that the answer has measured, and a chunk is
handed over although those before it fill the window. -/
theorem overshoots_longPause :
    Overshoots (fresh .byDefault (.reliable true) id) longPause (finite 200)
      longPauseEntry := by
  obtain ⟨faultless, few, third, filled⟩ :
      (fresh .byDefault (.reliable true) id).Faultless
          (longPause ++ [(finite 200, .probeAnswered)]) ∧
        bytes (handedOver (longPauseEntry.flush (finite 200)).events) <
          2 ^ 31 ∧
        2 < (handedOver
          (longPauseEntry.flush (finite 200)).events).length ∧
        ¬finite (bytes ((handedOver
            (longPauseEntry.flush (finite 200)).events).take 2)) <
          ((longPauseEntry.refreshed (finite 200)).passed (finite 200)
            2).controller.window := by
    decide +kernel
  exact ⟨faultless, List.mem_cons_self, few,
    fun below => filled (below 2 one_le_two third)⟩

/-! ## Going around the ring -/

section Single

variable {α : Type} [Arithmetic α] {clock now : α} {gate : Gate α}

theorem fault_pass_of_reliable
    (link : gate.link = .reliable true)
    (chunk : Chunk)
    (rest : List Chunk) :
    ((gate.refreshed now).pass now chunk rest).fault = none := by
  simp [pass, forward, take, refreshed, link, Link.reliable, Link.chunkFails]

theorem fault_probe_of_works
    (works : gate.link.probeFails = false) :
    (gate.probe now).fault = none := by
  have noted : (gate.withController
      (gate.controller.probeSent now)).state.link.probeFails = false := works
  unfold probe
  rw [Outcome.fault_andThen_eq_none_iff]
  refine ⟨by simp [withController], ?_⟩
  simp only [noted]
  rfl

/-- A gate without chunks whose alarm is silent has nothing to settle. -/
theorem settle_of_silent
    (empty : gate.queue = [])
    (silent : gate.retry.running = false) :
    gate.settle clock now = .done gate := by
  simp [settle, empty, silent]

/-- The gate after it passed so many bytes on and sent a probe after them. -/
def passedOn (now : α) (size : ℕ) (gate : Gate α) : Gate α :=
  let position := (gate.position + size) % Arithmetic.ringSize
  { gate with
    position
    queuedBytes := gate.queuedBytes + (size : α) - (size : α)
    controller :=
      (((gate.refreshed now).controller.recordProgress now
        (position : α)).state.probeSent now).state }

/-- A chunk that comes in while nothing waits and the window has room is passed
on at once. -/
theorem relieved_enqueue
    (link : gate.link = .reliable true)
    (queue : gate.queue = [])
    (free : (gate.refreshed now).controller.isCongested now = false)
    (chunk : Chunk) :
    (((gate.enqueue chunk).refreshed now).handOver now
        (gate.enqueue chunk).queue).fault = none ∧
      (gate.enqueue chunk).relieved now =
        (((gate.enqueue chunk).refreshed now).pass now chunk []).state := by
  have queue_eq : (gate.enqueue chunk).queue = [chunk] := by
    simp [enqueue, queue]
  have enqueued_link : (gate.enqueue chunk).link = .reliable true := link
  have passed : (((gate.enqueue chunk).refreshed now).pass now chunk []).fault =
      none := fault_pass_of_reliable enqueued_link chunk []
  have room : ((gate.enqueue chunk).refreshed now).controller.isCongested now =
      false := free
  have handed : ((gate.enqueue chunk).refreshed now).handOver now [chunk] =
      (((gate.enqueue chunk).refreshed now).pass now chunk []).andThen .done := by
    unfold handOver
    rw [room, if_neg Bool.false_ne_true]
    rfl
  unfold relieved
  rw [queue_eq, handed, Outcome.andThen_of_faultless passed]
  exact ⟨rfl, rfl⟩

/-- A probe follows it. -/
theorem dataIn_of_free
    (now_eq : gate.reading clock = now)
    (link : gate.link = .reliable true)
    (queue : gate.queue = [])
    (silent : gate.retry.running = false)
    (free : (gate.refreshed now).controller.isCongested now = false)
    (chunk : Chunk) :
    (gate.dataIn clock chunk).fault = none ∧
      (gate.dataIn clock chunk).state = gate.passedOn now chunk.size := by
  obtain ⟨handed, relieved_eq⟩ := relieved_enqueue link queue free chunk
  have enqueued_link : (gate.enqueue chunk).link = .reliable true := link
  have passed : (((gate.enqueue chunk).refreshed now).pass now chunk []).fault =
      none := fault_pass_of_reliable enqueued_link chunk []
  rw [state_pass_of_faultless passed] at relieved_eq
  have link_eq : ((gate.enqueue chunk).relieved now).link = .reliable true := by
    rw [relieved_eq]
    change (if gate.link.connected then gate.link.afterChunk else gate.link) = _
    rw [link]
    rfl
  have probed : (((gate.enqueue chunk).relieved now).probe now).fault = none := by
    apply fault_probe_of_works
    rw [link_eq]
    rfl
  have reading_eq : (gate.enqueue chunk).reading clock = now := now_eq
  have faultless : ((gate.enqueue chunk).flush clock).fault = none := by
    unfold flush
    simp only [reading_eq, Outcome.fault_andThen_eq_none_iff]
    refine ⟨fault_report _ _, handed, ?_, fault_settle _ _ _⟩
    split
    · exact probed
    · rfl
  refine ⟨faultless, ?_⟩
  obtain ⟨-, ⟨same, -⟩ | ⟨-, state_eq⟩⟩ :=
    flush_of_faultless reading_eq faultless
  · -- the chunk cannot still be there
    have queue_eq := congrArg Gate.queue (same.symm.trans relieved_eq)
    exact absurd queue_eq (by simp [refreshed, enqueue, take])
  · change ((gate.enqueue chunk).flush clock).state = _
    rw [state_eq, settle_of_silent, state_probe, link_eq, relieved_eq]
    · simp only [Outcome.state_done, passedOn, take, enqueue, refreshed,
        state_report, queue, link]
      rfl
    · rw [state_probe, relieved_eq]
      rfl
    · rw [state_probe, relieved_eq]
      exact silent

end Single

/-- A gate whose controller knows the wire latency and that has nothing on its
way. -/
def measured : Gate Binary64 :=
  (fresh .byDefault (.reliable true) id).after
    [(0, .dataIn ⟨Array.replicate 100 0⟩), (0, .probeAnswered)]

/-- After almost a ring of bytes was passed on and answered, chunks have to
wait. -/
def crowded : List (Binary64 × Action Binary64) :=
  [(0, .probeAnswered),
    (0, .dataIn ⟨Array.replicate 20000 0⟩),
    (0, .dataIn ⟨Array.replicate 30000 0⟩),
    (0, .dataIn ⟨Array.replicate 10 0⟩)]

/-- The gate at which the last answer after `crowded` begins to flush. -/
def crowdedEntry : Gate Binary64 :=
  ((measured.passedOn 0 4294917296).after crowded).answeredAt 0

theorem dataIn_measured
    {huge : Chunk}
    (size_eq : huge.size = 4294917296) :
    (measured.perform 0 (.dataIn huge)).fault = none ∧
      (measured.perform 0 (.dataIn huge)).state =
        measured.passedOn 0 4294917296 := by
  obtain ⟨now_eq, link, queue, silent, free⟩ :
      measured.reading 0 = 0 ∧
        measured.link = .reliable true ∧
        measured.queue.length = 0 ∧
        measured.retry.running = false ∧
        (measured.refreshed 0).controller.isCongested 0 = false := by
    decide +kernel
  rw [← size_eq]
  exact dataIn_of_free now_eq link (List.length_eq_zero_iff.mp queue) silent
    free huge

/-- A surplus of the size of the ring counts as none.  If almost a ring of bytes
goes out at one time, a later flush hands over a chunk although those before it
fill the window. -/
theorem overshoots_crowded
    {huge : Chunk}
    (size_eq : huge.size = 4294917296) :
    (crowdedEntry.refreshed 0).controller.base ≠ none ∧
      Overshoots measured ((0, .dataIn huge) :: crowded) 0 crowdedEntry := by
  obtain ⟨faultless, state_eq⟩ := dataIn_measured size_eq
  obtain ⟨crowdedFaultless, few, known, second, filled⟩ :
      (measured.passedOn 0 4294917296).Faultless
          (crowded ++ [(0, .probeAnswered)]) ∧
        bytes (handedOver (crowdedEntry.flush 0).events) < 2 ^ 31 ∧
        (crowdedEntry.refreshed 0).controller.base ≠ none ∧
        1 < (handedOver (crowdedEntry.flush 0).events).length ∧
        ¬finite (bytes ((handedOver (crowdedEntry.flush 0).events).take 1)) <
          ((crowdedEntry.refreshed 0).passed 0 1).controller.window := by
    decide +kernel
  refine ⟨known, ?_, ?_, few, ?_⟩
  · rw [List.cons_append, faultless_cons]
    refine ⟨faultless, ?_⟩
    rw [state_eq]
    exact crowdedFaultless
  · rw [after_cons, state_eq]
    exact List.mem_cons_self
  · intro below
    exact filled (below 1 le_rfl second)

/-- Both conditions of the bound are needed: a flush goes beyond the window if it
has nothing to go by, and also if it knows the wire latency but the bytes on their
way go around the ring. -/
theorem burst_beyond_window :
    Overshoots (fresh .byDefault (.reliable true) id) longPause (finite 200)
        longPauseEntry ∧
      ∃ huge : Chunk, huge.size = 4294917296 ∧
        (crowdedEntry.refreshed 0).controller.base ≠ none ∧
        Overshoots measured ((0, .dataIn huge) :: crowded) 0 crowdedEntry := by
  let huge : Chunk := ⟨Array.replicate 4294917296 0⟩
  have size_eq : huge.size = 4294917296 := Array.size_replicate
  exact ⟨overshoots_longPause, huge, size_eq, overshoots_crowded size_eq⟩

end Gate
end Backpressure
