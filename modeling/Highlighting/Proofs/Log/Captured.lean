import Mathlib.Data.List.DropRight
import Highlighting.Log.Service

/-!
# What a log in memory has captured

A service over a log in memory is used in three ways: events are logged, the most verbose level is
set, and the log is cleared.  Whatever the order, the log holds the latest of the events that have
come through since it was last cleared, as many as it has room for (`LogService.run_captures`).
Which events these are is said of a history alone, without the log (`LogService.received`): an event
comes through if its level is shown under the level in force when it is logged.

One more event takes the place of the oldest one if the log is full, and of none otherwise
(`MemoryLog.toList_add_of_length_le`).
-/

namespace Highlighting

namespace MemoryLog

variable {log : MemoryLog}

/-- A log that is not overfull gives up its oldest event for a new one if it is full. -/
theorem toList_add_of_length_le (h : log.toList.length ≤ Limits.logBufferSize) (e : Event) :
    (log.add e).toList =
      (if log.toList.length < Limits.logBufferSize then log.toList else log.toList.tail) ++
        [e] := by
  have hsize : log.events.size = log.toList.length := Array.length_toList.symm
  rw [toList_add, hsize]
  split
  · next hroom =>
    rw [Nat.sub_eq_zero_of_le (Nat.le_sub_one_of_lt hroom), List.drop_zero]
  · next hfull =>
    have hlength : log.toList.length = Limits.logBufferSize :=
      Nat.le_antisymm h (Nat.not_lt.1 hfull)
    have hone : Limits.logBufferSize - (Limits.logBufferSize - 1) = 1 := rfl
    rw [hlength, hone, List.drop_one]

/-- A log that holds the latest of some events holds the latest of these and a new one. -/
theorem toList_add_of_eq_rtake {es : List Event} (h : log.toList = es.rtake Limits.logBufferSize)
    (e : Event) : (log.add e).toList = (es ++ [e]).rtake Limits.logBufferSize := by
  have hpos : 0 < Limits.logBufferSize := by decide
  have hsize : log.events.size = es.length - (es.length - Limits.logBufferSize) := by
    rw [← Array.length_toList, ← toList, h, List.rtake, List.length_drop]
  have hdropped : es.length - Limits.logBufferSize +
      (log.events.size - (Limits.logBufferSize - 1)) = es.length + 1 - Limits.logBufferSize := by
    omega
  rw [toList_add, h, List.rtake, List.rtake, List.drop_drop, hdropped, List.length_append,
    List.length_singleton, List.drop_append_of_le_length (by omega)]

end MemoryLog

namespace LogService

/-- What is done with a service. -/
inductive Operation where
  | log (e : Event)
  | setLimit (l : Level)
  | clear
deriving DecidableEq, Inhabited

/-- The level that an operation sets. -/
def Operation.limit? : Operation → Option Level
  | setLimit l => some l
  | _ => none

/-- The event that an operation logs, if its level is shown under a limit. -/
def Operation.shown? (limit : Level) : Operation → Option Event
  | log e => if e.level.isShown limit then some e else none
  | _ => none

/-- The service after an operation. -/
def perform (s : LogService) : Operation → LogService
  | .log e => (s.log e).1
  | .setLimit l => s.withLimit l
  | .clear => s.clear

/-- The service after several operations in order. -/
def run (s : LogService) (ops : List Operation) : LogService := ops.foldl perform s

/-- A service over a log in memory that holds nothing yet. -/
def inMemory (limit : Level) : LogService := ⟨.memory {}, limit⟩

/-- The events that a service has captured, oldest first. -/
def captured (s : LogService) : List Event := s.sink.log.toList

/-! ### Histories -/

/-- The most verbose level in force after operations, given the one before them: the level that was
set last. -/
def limitAfter (limit : Level) (ops : List Operation) : Level :=
  (ops.filterMap Operation.limit?).getLast?.getD limit

/-- The event that comes through at a place of a history and is not cleared away later: its level is
shown under the level in force at that moment. -/
def receivedAt? (limit : Level) (ops : List Operation) (i : Nat) : Option Event :=
  if .clear ∈ ops.drop (i + 1) then none
  else ops[i]?.bind (Operation.shown? (limitAfter limit (ops.take i)))

/-- The events that have come through since the log was last cleared, in the order in which they
were logged. -/
def received (limit : Level) (ops : List Operation) : List Event :=
  (List.range ops.length).filterMap (receivedAt? limit ops)

theorem limitAfter_concat (limit : Level) (ops : List Operation) (op : Operation) :
    limitAfter limit (ops ++ [op]) = op.limit?.getD (limitAfter limit ops) := by
  cases op <;> simp [limitAfter, Operation.limit?, List.filterMap_append]

/-- Clearing takes away what has come through before; other operations leave it. -/
theorem receivedAt?_concat_of_lt (limit : Level) {ops : List Operation} (op : Operation) {i : Nat}
    (hi : i < ops.length) :
    receivedAt? limit (ops ++ [op]) i =
      if op = .clear then none else receivedAt? limit ops i := by
  have htake : (ops ++ [op]).take i = ops.take i := List.take_append_of_le_length hi.le
  have hdrop : (ops ++ [op]).drop (i + 1) = ops.drop (i + 1) ++ [op] :=
    List.drop_append_of_le_length hi
  rw [receivedAt?, receivedAt?, List.getElem?_append_left hi, htake, hdrop]
  by_cases hop : op = .clear
  · rw [if_pos hop, if_pos (by simp [hop])]
  · simp only [List.mem_append, List.mem_singleton, Ne.symm hop, or_false, hop, if_false]

theorem receivedAt?_concat_self (limit : Level) (ops : List Operation) (op : Operation) :
    receivedAt? limit (ops ++ [op]) ops.length = op.shown? (limitAfter limit ops) := by
  simp [receivedAt?]

/-- What one more operation does to the events that have come through. -/
theorem received_concat (limit : Level) (ops : List Operation) (op : Operation) :
    received limit (ops ++ [op]) = (if op = .clear then [] else received limit ops) ++
      (op.shown? (limitAfter limit ops)).toList := by
  have hbefore : (List.range ops.length).filterMap (receivedAt? limit (ops ++ [op])) =
      if op = .clear then [] else received limit ops := by
    rw [List.filterMap_congr fun i hi => receivedAt?_concat_of_lt limit op (List.mem_range.1 hi)]
    split
    · exact List.filterMap_none _
    · rfl
  have hlast : [ops.length].filterMap (receivedAt? limit (ops ++ [op])) =
      (op.shown? (limitAfter limit ops)).toList := by
    rw [← receivedAt?_concat_self]
    cases h : receivedAt? limit (ops ++ [op]) ops.length <;> simp [h]
  rw [received, List.length_append, List.length_singleton, List.range_succ, List.filterMap_append,
    hbefore, hlast]

/-! ### Services over a log in memory -/

/-- A service has a log in memory that holds the latest of some events, and a level in force. -/
structure Holds (s : LogService) (limit : Level) (es : List Event) : Prop where
  sink : ∃ log, s.sink = .memory log ∧ log.toList = es.rtake Limits.logBufferSize
  limit_eq : s.limit = limit

theorem holds_inMemory (limit : Level) : (inMemory limit).Holds limit [] :=
  ⟨⟨{}, rfl, rfl⟩, rfl⟩

namespace Holds

variable {s : LogService} {limit : Level} {es : List Event}

theorem captured_eq (h : s.Holds limit es) : s.captured = es.rtake Limits.logBufferSize := by
  obtain ⟨log, hsink, hlog⟩ := h.sink
  rw [captured, hsink]
  exact hlog

theorem length_le (h : s.Holds limit es) : s.captured.length ≤ Limits.logBufferSize := by
  rw [h.captured_eq, List.rtake, List.length_drop]
  omega

/-- An event is given to the log if its level is shown, and is of no consequence otherwise. -/
theorem log_cases (h : s.Holds limit es) (e : Event) :
    (s.shows e.level = true ∧ ∃ log, s.sink = .memory log ∧
        (s.log e).1 = ⟨.memory (log.add e), s.limit⟩) ∨
      s.shows e.level = false ∧ (s.log e).1 = s := by
  obtain ⟨log, hsink, -⟩ := h.sink
  cases hshows : s.shows e.level with
  | true => exact .inl ⟨rfl, log, hsink, by simp [LogService.log, hshows, hsink, Sink.take]⟩
  | false => exact .inr ⟨rfl, by rw [log_of_not_shows hshows]⟩

/-- An operation does to the log what it does to the events that have come through. -/
theorem perform (h : s.Holds limit es) (op : Operation) :
    (s.perform op).Holds (op.limit?.getD limit)
      ((if op = .clear then [] else es) ++ (op.shown? limit).toList) := by
  obtain ⟨log, hsink, hlog⟩ := h.sink
  cases op with
  | log e =>
    have hlimit : s.shows e.level = e.level.isShown limit := by rw [shows, h.limit_eq]
    rcases h.log_cases e with ⟨hshows, log', hsink', heq⟩ | ⟨hshows, heq⟩
    · obtain rfl := Sink.memory.inj (hsink'.symm.trans hsink)
      rw [hlimit] at hshows
      rw [LogService.perform, heq]
      refine ⟨⟨_, rfl, ?_⟩, h.limit_eq⟩
      simp only [Operation.shown?, hshows, if_true, reduceCtorEq, if_false, Option.toList_some]
      exact MemoryLog.toList_add_of_eq_rtake hlog e
    · rw [hlimit] at hshows
      rw [LogService.perform, heq]
      simp only [Operation.shown?, hshows, Operation.limit?, Option.getD_none, reduceCtorEq,
        if_false, Bool.false_eq_true, Option.toList_none, List.append_nil]
      exact h
  | setLimit l =>
    refine ⟨⟨log, hsink, ?_⟩, rfl⟩
    simpa [Operation.shown?] using hlog
  | clear =>
    rw [LogService.perform, LogService.clear, hsink]
    exact ⟨⟨{}, rfl, by simp [Operation.shown?, MemoryLog.toList, List.rtake]⟩, h.limit_eq⟩

end Holds

/-- After any operations the log holds the latest of the events that have come through. -/
theorem holds_run (limit : Level) (ops : List Operation) :
    ((inMemory limit).run ops).Holds (limitAfter limit ops) (received limit ops) := by
  induction ops using List.reverseRecOn with
  | nil => exact holds_inMemory limit
  | append_singleton ops op ih =>
    rw [run, List.foldl_append, limitAfter_concat, received_concat]
    exact ih.perform op

/-- Whatever is done with a service over a log in memory, the log holds the latest of the events
that have come through since it was last cleared, in their order, and never more of them than it has
room for.  The summary counts the events of each level, and one more event that comes through takes
the place of the oldest one at most. -/
theorem run_captures (limit : Level) (ops : List Operation) :
    let s := (inMemory limit).run ops
    s.limit = limitAfter limit ops ∧
    s.captured = (received limit ops).rtake Limits.logBufferSize ∧
    s.captured.length ≤ Limits.logBufferSize ∧
    s.sink.log.summary.total = s.captured.length ∧
    s.sink.log.summary.errors = (s.captured.filter fun e => e.level = .error).length ∧
    s.sink.log.summary.warnings = (s.captured.filter fun e => e.level = .warning).length ∧
    s.sink.log.summary.infos = (s.captured.filter fun e => e.level = .info).length ∧
    ∀ e, (s.log e).1.captured =
      if e.level.isShown s.limit then
        (if s.captured.length < Limits.logBufferSize then s.captured else s.captured.tail) ++ [e]
      else s.captured := by
  intro s
  have h : s.Holds (limitAfter limit ops) (received limit ops) := holds_run limit ops
  refine ⟨h.limit_eq, h.captured_eq, h.length_le, Array.length_toList.symm,
    List.countP_eq_length_filter, List.countP_eq_length_filter, List.countP_eq_length_filter,
    fun e => ?_⟩
  rcases h.log_cases e with ⟨hshows, log, hsink, heq⟩ | ⟨hshows, heq⟩
  · have hcaptured : s.captured = log.toList := by rw [captured, hsink]; rfl
    have hlength := h.length_le
    rw [hcaptured] at hlength ⊢
    have hshown : e.level.isShown s.limit = true := hshows
    rw [if_pos hshown, heq]
    exact MemoryLog.toList_add_of_length_le hlength e
  · have hshown : ¬ e.level.isShown s.limit = true := Bool.not_eq_true _ ▸ hshows
    rw [if_neg hshown, heq]

-- an event that does not come through stays out when the level is changed
example : ((inMemory .info).run
    [.log (.info "read"), .setLimit .error, .log (.info "scanned"), .setLimit .debug]).captured =
      [.info "read"] := rfl

end LogService

end Highlighting
