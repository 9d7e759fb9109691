import Highlighting.Json
import Highlighting.Log.Code
import Highlighting.Position
import Highlighting.Settings.Limits
import Highlighting.Text.Boundary

/-!
# Log events

An event has a level, a code and a message, and it may have a span and a context of named texts.
`Event.format` is its one line, `Event.formatDetailed` adds what is known of the code, and
`Event.toJson` is its structured form.  `truncateMessage` cuts long messages.
-/

namespace Highlighting

/-- How important an event is. -/
inductive Level where
  | error | warning | info | debug
deriving DecidableEq, Inhabited

namespace Level

/-- The level in events. -/
def name : Level → String
  | error => "ERROR"
  | warning => "WARN"
  | info => "INFO"
  | debug => "DEBUG"

/-- The level as a number; a higher number is more verbose. -/
def rank : Level → Nat
  | error => 0
  | warning => 1
  | info => 2
  | debug => 3

/-- Whether events of a level are shown when `limit` is the most verbose level in force. -/
def isShown (l limit : Level) : Bool := l.rank ≤ limit.rank

/-- The more verbose of two levels. -/
def max (l m : Level) : Level := if l.rank ≤ m.rank then m else l

theorem rank_injective {l m : Level} (h : l.rank = m.rank) : l = m := by
  cases l <;> cases m <;> simp_all [rank]

theorem isShown_iff {l m : Level} : l.isShown m = true ↔ l.rank ≤ m.rank := by simp [isShown]

end Level

/-- Named texts in the order of their names. -/
abbrev Context := List (String × String)

namespace Context

/-- Gives a name a text, in place of the one that it may have. -/
def set (key value : String) : Context → Context
  | [] => [(key, value)]
  | e :: es =>
    if key < e.1 then (key, value) :: e :: es
    else if key == e.1 then (key, value) :: es
    else e :: set key value es

/-- Gives several names their texts, in order. -/
def setAll (entries : List (String × String)) (c : Context) : Context :=
  entries.foldl (fun c e => c.set e.1 e.2) c

/-- The text of a name. -/
def get? (c : Context) (key : String) : Option String :=
  (c.find? fun e => e.1 == key).map (·.2)

end Context

/-- One logged occurrence. -/
structure Event where
  level : Level
  code : Code
  message : String
  span : Option Span := none
  context : Context := []
deriving DecidableEq, Inhabited

namespace Event

/-- An error. -/
def error (code : Code) (message : String) (context : Context := []) : Event :=
  ⟨.error, code, message, none, Context.setAll context []⟩

/-- A warning with a code of its own. -/
def warningWith (code : Code) (message : String) (context : Context := []) : Event :=
  ⟨.warning, code, message, none, Context.setAll context []⟩

/-- A warning without a code of its own. -/
def warning (message : String) (context : Context := []) : Event :=
  warningWith ⟨"W000"⟩ message context

/-- A note that something succeeded. -/
def success (code : Code) (message : String) (context : Context := []) : Event :=
  ⟨.info, code, message, none, Context.setAll context []⟩

/-- A note without a code of its own. -/
def info (message : String) (context : Context := []) : Event := success ⟨"I000"⟩ message context

/-- A detail for those who look for defects. -/
def debug (message : String) (context : Context := []) : Event :=
  ⟨.debug, ⟨"D000"⟩, message, none, Context.setAll context []⟩

/-- The event with one more named text. -/
def withContext (e : Event) (key value : String) : Event :=
  { e with context := e.context.set key value }

/-- The event at a span. -/
def withSpan (e : Event) (s : Span) : Event := { e with span := some s }

/-- The event in a file. -/
def withFilePath (e : Event) (path : String) : Event := e.withContext "file_path" path

/-- Whether the event is an error. -/
def isError (e : Event) : Bool := e.level == .error

/-- Whether the event is a warning. -/
def isWarning (e : Event) : Bool := e.level == .warning

/-- Whether the event is a note. -/
def isInfo (e : Event) : Bool := e.level == .info

/-- Level, code, message and place in one line. -/
def format (e : Event) : String :=
  let place := match e.span with
    | some s => " at " ++ s.start.display
    | none => ""
  s!"[{e.level.name}] {e.code.name} - {e.message}{place}"

/-- The event with what is known of its code and with its context. -/
def formatDetailed (e : Event) : String :=
  let recovery :=
    if e.isError then
      s!"\n  Recoverable: {e.code.recoverable}\n  Requires halt: {e.code.requiresHalt}"
    else ""
  let known := match e.code.info? with
    | some i => s!"\n  Description: {i.description}\n  Recommended action: {i.action}"
    | none => ""
  let context :=
    if e.context.isEmpty then ""
    else "\n  Context:" ++ String.join (e.context.map fun (k, v) => s!"\n    {k}: {v}")
  s!"{e.format}\n  Category: {e.code.area}\n  Severity: {e.code.severity.name}" ++
    recovery ++ known ++ context

/-- The structured form, its fields in the order of their names. -/
def toJson (e : Event) : Json :=
  let context :=
    if e.context.isEmpty then []
    else [("context", Json.object (e.context.map fun (k, v) => (k, .string v)))]
  let metadata :=
    if e.isError then
      [("error_metadata", Json.object
        [("description", .string e.code.description),
         ("recommended_action", .string e.code.action),
         ("recoverable", .bool e.code.recoverable),
         ("requires_halt", .bool e.code.requiresHalt)])]
    else []
  let span := match e.span with
    | some s =>
      [("span", Json.object
        [("end_column", .nat s.stop.column), ("end_line", .nat s.stop.line),
         ("start_column", .nat s.start.column), ("start_line", .nat s.start.line)])]
    | none => []
  .object <|
    [("category", .string e.code.area), ("code", .string e.code.name)] ++ context ++ metadata ++
    [("level", .string e.level.name), ("message", .string e.message),
     ("severity", .string e.code.severity.name)] ++ span

end Event

/-- A message cut to the limit for messages, between two characters, with dots for the rest. -/
def truncateMessage (message : String) : String :=
  if message.utf8ByteSize ≤ Limits.maxMessageLength then message
  else
    let cut := (boundaryFrom? message Limits.maxMessageLength).get (isSome_boundaryFrom? _ _)
    (message.sliceTo cut).copy ++ "..."

theorem truncateMessage_of_le {message : String}
    (h : message.utf8ByteSize ≤ Limits.maxMessageLength) : truncateMessage message = message :=
  if_pos h

theorem truncateMessage_of_lt {message : String}
    (h : Limits.maxMessageLength < message.utf8ByteSize) :
    truncateMessage message =
      (message.sliceTo (message.posLE ⟨Limits.maxMessageLength⟩)).copy ++ "..." := by
  rw [truncateMessage, if_neg (Nat.not_le.2 h)]
  simp only [boundaryFrom?_eq_posLE, Option.get_some]

end Highlighting
