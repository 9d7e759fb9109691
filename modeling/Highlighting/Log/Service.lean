import Highlighting.Log.Memory

/-!
# Log services

A service has a most verbose level and a sink.  A console writes one line for each event, errors to
the error stream and everything else to the output stream; a structured sink writes every event as
a record to the error stream; a log in memory keeps events.
-/

namespace Highlighting

/-- Where events go.  Sinks that write have a most verbose level of their own. -/
inductive Sink where
  | console (limit : Level)
  | structured (limit : Level)
  | memory (log : MemoryLog)
deriving Inhabited

/-- Lines for the two standard streams. -/
structure Written where
  out : List String := []
  err : List String := []
deriving DecidableEq, Inhabited

namespace Sink

/-- The sink and what it writes when it is given an event. -/
def take (s : Sink) (e : Event) : Sink × Written :=
  match s with
  | console limit =>
    if e.level.isShown limit then
      (s, if e.isError then { err := [e.format] } else { out := [e.format] })
    else (s, {})
  | structured limit =>
    (s, if e.level.isShown limit then { err := [e.toJson.render] } else {})
  | memory log => (memory (log.add e), {})

/-- The events that a sink holds. -/
def log : Sink → MemoryLog
  | memory log => log
  | _ => {}

end Sink

/-- A sink behind a most verbose level. -/
structure LogService where
  sink : Sink
  limit : Level
deriving Inhabited

namespace LogService

/-- Whether events of a level reach the sink. -/
def shows (s : LogService) (l : Level) : Bool := l.isShown s.limit

/-- The service and what it writes when an event is logged. -/
def log (s : LogService) (e : Event) : LogService × Written :=
  if s.shows e.level then
    let (sink, written) := s.sink.take e
    ({ s with sink }, written)
  else (s, {})

/-- The service with another most verbose level. -/
def withLimit (s : LogService) (l : Level) : LogService := { s with limit := l }

/-- The service whose log in memory, if it has one, is empty. -/
def clear (s : LogService) : LogService :=
  match s.sink with
  | .memory _ => { s with sink := .memory {} }
  | _ => s

/-- Logs events in order. -/
def logAll (s : LogService) : List Event → LogService
  | [] => s
  | e :: es => logAll (s.log e).1 es

theorem log_of_not_shows {s : LogService} {e : Event} (h : s.shows e.level = false) :
    s.log e = (s, {}) := by
  simp [log, h]

end LogService

end Highlighting
