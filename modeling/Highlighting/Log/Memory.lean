import Highlighting.Log.Event

/-!
# Logs in memory

A log in memory keeps the latest events, oldest first, and forgets the oldest one for each event
beyond its capacity.  `toList_add` says what one more event does to it.
-/

namespace Highlighting

/-- The events that a log still holds, oldest first. -/
structure MemoryLog where
  events : Array Event := #[]
deriving Inhabited

/-- How many events of each kind a log holds. -/
structure LogSummary where
  total : Nat
  errors : Nat
  warnings : Nat
  infos : Nat
  /-- errors after which the work has to stop -/
  critical : Nat
deriving DecidableEq, Inhabited

namespace MemoryLog

/-- The log without the oldest events, so that at most `n` are left. -/
def keep (n : Nat) (log : MemoryLog) : MemoryLog :=
  if log.events.size ≤ n then log
  else ⟨log.events.extract (log.events.size - n) log.events.size⟩

/-- The log with one more event. -/
def add (log : MemoryLog) (e : Event) : MemoryLog :=
  let kept := log.keep (Limits.logBufferSize - 1)
  ⟨kept.events.push e⟩

/-- The events of a log, oldest first. -/
def toList (log : MemoryLog) : List Event := log.events.toList

/-- The events that are errors. -/
def errors (log : MemoryLog) : List Event := log.toList.filter Event.isError

/-- The events that are warnings. -/
def warnings (log : MemoryLog) : List Event := log.toList.filter Event.isWarning

/-- The events with a code. -/
def withCode (log : MemoryLog) (code : Code) : List Event :=
  log.toList.filter fun e => e.code == code

/-- The events whose code belongs to an area. -/
def inArea (log : MemoryLog) (area : String) : List Event :=
  log.toList.filter fun e => e.code.area == area

/-- The numbers of events of each kind. -/
def summary (log : MemoryLog) : LogSummary where
  total := log.events.size
  errors := log.toList.countP Event.isError
  warnings := log.toList.countP Event.isWarning
  infos := log.toList.countP Event.isInfo
  critical := log.toList.countP fun e => e.isError && e.code.requiresHalt

theorem toList_keep (n : Nat) (log : MemoryLog) :
    (log.keep n).toList = log.toList.drop (log.events.size - n) := by
  unfold keep toList
  split
  · next h => simp [Nat.sub_eq_zero_of_le h]
  · simp [Array.toList_extract, List.take_of_length_le]

theorem toList_add (log : MemoryLog) (e : Event) :
    (log.add e).toList =
      log.toList.drop (log.events.size - (Limits.logBufferSize - 1)) ++ [e] := by
  rw [← toList_keep]
  simp [add, toList]

end MemoryLog

end Highlighting
