import Highlighting.Json
import Highlighting.Settings.Files
import Highlighting.Settings.Lexical
import Highlighting.Settings.Logging
import Highlighting.Settings.Render
import Highlighting.Text.Blank

/-!
# Preferences

Preferences come from the environment, where a variable that is missing or cannot be read leaves
its default, or from a structured value, which has to be complete.
-/

namespace Highlighting

/-- All that a user may choose. -/
structure Preferences where
  files : FilePreferences := {}
  lexical : LexicalPreferences := {}
  render : RenderPreferences := {}
  logging : LoggingPreferences := {}
deriving DecidableEq, Inhabited

/-- The variables of an environment. -/
abbrev Environment := List (String × String)

namespace Environment

/-- The value of a variable. -/
def get? (env : Environment) (name : String) : Option String :=
  (env.find? fun v => v.1 == name).map (·.2)

/-- A truth value in words. -/
def boolOf? : String → Option Bool
  | "true" => some true
  | "false" => some false
  | _ => none

/-- A number of 64 bits in decimal digits, after a plus sign or without one. -/
def natOf? (s : String) : Option Nat :=
  let digits := match s.toList with
    | '+' :: ds => ds
    | ds => ds
  if digits.isEmpty || !digits.all Char.isDigit then none
  else
    let n := digits.foldl (fun n d => 10 * n + (d.toNat - '0'.toNat)) 0
    if n < .pow 2 64 then some n else none

/-- The truth value of a variable, or a default. -/
def bool (env : Environment) (name : String) (default : Bool) : Bool :=
  ((env.get? name).bind boolOf?).getD default

/-- The number of a variable, or a default. -/
def nat (env : Environment) (name : String) (default : Nat) : Nat :=
  ((env.get? name).bind natOf?).getD default

/-- The text of a variable unless it is blank, or a default. -/
def text (env : Environment) (name default : String) : String :=
  match env.get? name with
  | some s => if allBlank s then default else s
  | none => default

/-- The level of a variable, or a default. -/
def level (env : Environment) (name : String) (default : Level) : Level :=
  ((env.get? name).bind Level.ofText?).getD default

end Environment

namespace FilePreferences

/-- Preferences from an environment. -/
def ofEnvironment (env : Environment) : FilePreferences where
  requireKnown := env.bool "HIGHLIGHT_REQUIRE_KNOWN_EXTENSION" false
  reportDetails := env.bool "HIGHLIGHT_ENABLE_PERFORMANCE_LOGGING" true

/-- The structured form. -/
def toJson (p : FilePreferences) : Json :=
  .object [("require_known_extension", .bool p.requireKnown),
    ("enable_performance_logging", .bool p.reportDetails)]

/-- Reads preferences. -/
def ofJson? (v : Json) : Option FilePreferences :=
  match v.record? ["require_known_extension", "enable_performance_logging"] with
  | some [known, details] => do some ⟨← known.bool?, ← details.bool?⟩
  | _ => none

end FilePreferences

namespace LexicalPreferences

/-- Preferences from an environment. -/
def ofEnvironment (env : Environment) : LexicalPreferences where
  mergeAdjacent := env.bool "HIGHLIGHT_LEXICAL_MERGE_TOKENS" true
  detailedMetrics := env.bool "HIGHLIGHT_LEXICAL_DETAILED_METRICS" true
  logUnmatched := env.bool "HIGHLIGHT_LEXICAL_LOG_FALLBACK" false
  maxTokens := env.nat "HIGHLIGHT_LEXICAL_MAX_TOKENS" Limits.maxTokens

/-- The structured form. -/
def toJson (p : LexicalPreferences) : Json :=
  .object [("merge_adjacent_tokens", .bool p.mergeAdjacent),
    ("collect_detailed_metrics", .bool p.detailedMetrics),
    ("log_fallback_characters", .bool p.logUnmatched), ("max_token_count", .nat p.maxTokens)]

/-- A token limit, which may be missing. -/
def limitOf? : Option Json → Option Nat
  | none => some Limits.maxTokens
  | some v => v.natBelow? (.pow 2 64)

/-- Reads preferences: a record, or a list of its fields in order.  The token limit may be
missing. -/
def ofJson? (v : Json) : Option LexicalPreferences := do
  let (merge, details, unmatched, limit) ← match v with
    | .object fields =>
      match v.record? ["merge_adjacent_tokens", "collect_detailed_metrics",
          "log_fallback_characters"] with
      | some [merge, details, unmatched] =>
        some (merge, details, unmatched, Json.field? fields "max_token_count")
      | _ => none
    | .array [merge, details, unmatched] => some (merge, details, unmatched, none)
    | .array [merge, details, unmatched, limit] => some (merge, details, unmatched, some limit)
    | _ => none
  some ⟨← merge.bool?, ← details.bool?, ← unmatched.bool?, ← limitOf? limit⟩

end LexicalPreferences

namespace RenderPreferences

/-- Preferences from an environment. -/
def ofEnvironment (env : Environment) : RenderPreferences where
  wrapOutput := env.bool "HIGHLIGHT_RENDER_WRAP" true
  lineNumbers := env.bool "HIGHLIGHT_RENDER_LINE_NUMBERS" false
  cssClass := env.text "HIGHLIGHT_RENDER_CSS_CLASS" "highlight"

/-- The structured form. -/
def toJson (p : RenderPreferences) : Json :=
  .object [("wrap_output", .bool p.wrapOutput), ("line_numbers", .bool p.lineNumbers),
    ("css_class", .string p.cssClass)]

/-- Reads preferences. -/
def ofJson? (v : Json) : Option RenderPreferences :=
  match v.record? ["wrap_output", "line_numbers", "css_class"] with
  | some [wrap, numbers, cssClass] => do
    some ⟨← wrap.bool?, ← numbers.bool?, ← cssClass.text?⟩
  | _ => none

end RenderPreferences

namespace Level

/-- Reads the word of a level, which may be the name of a field without a value. -/
def ofJson? : Json → Option Level
  | .string s => all.find? fun l => l.word == s
  | .object [(s, .null)] => all.find? fun l => l.word == s
  | _ => none

end Level

namespace LoggingPreferences

/-- Preferences from an environment. -/
def ofEnvironment (env : Environment) : LoggingPreferences where
  structured := env.bool "HIGHLIGHT_LOGGING_USE_STRUCTURED" false
  console := env.bool "HIGHLIGHT_LOGGING_ENABLE_CONSOLE" false
  minLevel := env.level "HIGHLIGHT_LOGGING_MIN_LEVEL" .info
  marksFiles := env.bool "HIGHLIGHT_LOGGING_INCLUDE_FILE_CONTEXT" true

/-- The structured form. -/
def toJson (p : LoggingPreferences) : Json :=
  .object [("use_structured_logging", .bool p.structured),
    ("enable_console_logging", .bool p.console), ("min_log_level", .string p.minLevel.word),
    ("include_file_context", .bool p.marksFiles)]

/-- Reads preferences. -/
def ofJson? (v : Json) : Option LoggingPreferences :=
  match v.record? ["use_structured_logging", "enable_console_logging", "min_log_level",
      "include_file_context"] with
  | some [structured, console, level, marks] => do
    some ⟨← structured.bool?, ← console.bool?, ← Level.ofJson? level, ← marks.bool?⟩
  | _ => none

end LoggingPreferences

namespace Preferences

/-- The variables that hold preferences. -/
def variableNames : List String :=
  ["HIGHLIGHT_REQUIRE_KNOWN_EXTENSION", "HIGHLIGHT_ENABLE_PERFORMANCE_LOGGING",
    "HIGHLIGHT_LEXICAL_MERGE_TOKENS", "HIGHLIGHT_LEXICAL_DETAILED_METRICS",
    "HIGHLIGHT_LEXICAL_LOG_FALLBACK", "HIGHLIGHT_LEXICAL_MAX_TOKENS", "HIGHLIGHT_RENDER_WRAP",
    "HIGHLIGHT_RENDER_LINE_NUMBERS", "HIGHLIGHT_RENDER_CSS_CLASS",
    "HIGHLIGHT_LOGGING_USE_STRUCTURED", "HIGHLIGHT_LOGGING_ENABLE_CONSOLE",
    "HIGHLIGHT_LOGGING_MIN_LEVEL", "HIGHLIGHT_LOGGING_INCLUDE_FILE_CONTEXT"]

/-- Preferences from an environment. -/
def ofEnvironment (env : Environment) : Preferences :=
  ⟨.ofEnvironment env, .ofEnvironment env, .ofEnvironment env, .ofEnvironment env⟩

/-- The structured form. -/
def toJson (p : Preferences) : Json :=
  .object [("file_processor", p.files.toJson), ("lexical", p.lexical.toJson),
    ("render", p.render.toJson), ("logging", p.logging.toJson)]

/-- Reads preferences. -/
def ofJson? (v : Json) : Option Preferences :=
  match v.record? ["file_processor", "lexical", "render", "logging"] with
  | some [files, lexical, render, logging] => do
    some ⟨← FilePreferences.ofJson? files, ← LexicalPreferences.ofJson? lexical,
      ← RenderPreferences.ofJson? render, ← LoggingPreferences.ofJson? logging⟩
  | _ => none

end Preferences

end Highlighting
