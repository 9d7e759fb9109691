import Highlighting.Log.Event
import Highlighting.Text.CaseMap

/-!
# Preferences for logs

The level that a user chooses never silences warnings: `LoggingPreferences.level` is the level in
force.
-/

namespace Highlighting

namespace Level

/-- The level as a word of its own. -/
def word : Level → String
  | error => "Error"
  | warning => "Warning"
  | info => "Info"
  | debug => "Debug"

/-- Every level, from the severest on. -/
def all : List Level := [error, warning, info, debug]

/-- Reads a level: a name in any letter case, or its rank. -/
def ofText? (s : String) : Option Level :=
  match lowercase s with
  | "error" | "0" => some error
  | "warning" | "warn" | "1" => some warning
  | "info" | "2" => some info
  | "debug" | "3" => some debug
  | _ => none

/-- The level of a rank; ranks beyond warnings count as notes. -/
def ofRank : Nat → Level
  | 0 => error
  | 1 => warning
  | _ => info

end Level

/-- What a user may choose about the log. -/
structure LoggingPreferences where
  /-- write records instead of lines -/
  structured : Bool := false
  /-- write to the console -/
  console : Bool := false
  /-- the most verbose level to log -/
  minLevel : Level := .info
  /-- mark events with the file being worked on -/
  marksFiles : Bool := true
deriving DecidableEq, Inhabited

namespace LoggingPreferences

/-- The most verbose level in force, which is never severer than the fixed one. -/
def level (p : LoggingPreferences) : Level := p.minLevel.max (.ofRank Limits.minLogRank)

/-- The preferences and the fixed limits of logs, one a line. -/
def summary (p : LoggingPreferences) : String :=
  "Logging Configuration:\n" ++
  s!"- Log buffer size: {Limits.logBufferSize}\n" ++
  s!"- Max message length: {Limits.maxMessageLength}\n" ++
  s!"- Security min level: {Limits.minLogRank}\n" ++
  s!"- Min log level: {p.minLevel.word}\n" ++
  s!"- Structured logging: {p.structured}\n" ++
  s!"- Console logging: {p.console}\n" ++
  s!"- Include file context: {p.marksFiles}"

theorem warnings_shown (p : LoggingPreferences) : Level.warning.isShown p.level = true := by
  rcases p with ⟨_, _, l, _⟩
  cases l <;> rfl

end LoggingPreferences

end Highlighting
