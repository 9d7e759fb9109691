import Highlighting.Settings.Preferences

/-!
# Command lines

`Arguments.parse` reads a command line from left to right.  An option that takes a value waits for
it, and so do the inputs, which are only looked at when something else follows them; this decides
which of several faults is reported.
-/

namespace Highlighting

/-- What is written for a source. -/
inductive OutputFormat where
  | html | json | css
deriving DecidableEq, Inhabited

namespace OutputFormat

/-- The name of the format, which is the extension of its files as well. -/
def name : OutputFormat → String
  | html => "html"
  | json => "json"
  | css => "css"

/-- The format with a name. -/
def ofName? (s : String) : Option OutputFormat := [html, json, css].find? fun f => f.name == s

end OutputFormat

/-- What a command line asks for. -/
structure Arguments where
  /-- files and folders to highlight -/
  inputs : List String := []
  /-- the lexer to use for every file -/
  lang : Option String := none
  format : OutputFormat := .html
  /-- files of extensions -/
  extensions : List String := []
  wrap : Bool := false
  lineNumbers : Bool := false
  /-- the folder to write to instead of printing -/
  outputDir : Option String := none
  listLexers : Bool := false
  /-- how often more messages were asked for -/
  verbosity : Nat := 0
deriving DecidableEq, Inhabited

/-- Why a command line is not run. -/
inductive UsageError where
  | invalidValue | unknownArgument | argumentConflict | tooManyValues
  /-- help was asked for -/
  | displayHelp
  /-- the version was asked for -/
  | displayVersion
deriving DecidableEq, Inhabited

/-- What the parts of a command line can be for. -/
inductive Parameter where
  | lang | format | extension | outputDir
  | wrap | lineNumbers | listLexers | verbose | help | version
deriving DecidableEq, Inhabited

namespace Parameter

/-- Whether a value follows. -/
def takesValue : Parameter → Bool
  | lang | format | extension | outputDir => true
  | _ => false

/-- The parameter of a name after two dashes. -/
def ofLong? : String → Option Parameter
  | "lang" => some lang
  | "format" => some format
  | "extension" => some extension
  | "output-dir" => some outputDir
  | "wrap" => some wrap
  | "line-numbers" => some lineNumbers
  | "list-lexers" => some listLexers
  | "verbose" => some verbose
  | "help" => some help
  | "version" => some version
  | _ => none

/-- The parameter of a letter after one dash. -/
def ofShort? : Char → Option Parameter
  | 'l' => some lang
  | 'f' => some format
  | 'e' => some extension
  | 'o' => some outputDir
  | 'v' => some verbose
  | 'h' => some help
  | 'V' => some version
  | _ => none

/-- Whether the parameter may be given only once. -/
def isSingle : Parameter → Bool
  | extension | verbose => false
  | _ => true

end Parameter

/-- What is waiting to be looked at. -/
inductive Waiting where
  | nothing
  /-- a parameter and its value, if that has been seen -/
  | parameter (p : Parameter) (value : Option String)
  /-- inputs in a row -/
  | inputs (paths : List String)
deriving DecidableEq, Inhabited

/-- A command line that has been read up to some point. -/
structure PartialArguments where
  args : Arguments := {}
  /-- the parameters that have been given and may be given only once -/
  given : List Parameter := []
  waiting : Waiting := .nothing
deriving DecidableEq, Inhabited

namespace PartialArguments

/-- Notes that a parameter is given, which may have to be the first time. -/
def give (r : PartialArguments) (p : Parameter) : Except UsageError PartialArguments :=
  if p.isSingle && r.given.contains p then .error .argumentConflict
  else .ok { r with given := p :: r.given }

/-- The value of a parameter. -/
def setValue (a : Arguments) (p : Parameter) (v : String) : Except UsageError Arguments :=
  match p with
  | .lang => .ok { a with lang := some v }
  | .format =>
    match OutputFormat.ofName? v with
    | some f => .ok { a with format := f }
    | none => .error .invalidValue
  | .extension =>
    if v = "" then .error .invalidValue else .ok { a with extensions := a.extensions ++ [v] }
  | .outputDir => if v = "" then .error .invalidValue else .ok { a with outputDir := some v }
  | _ => .ok a

/-- Gives a parameter a value. -/
def accept (r : PartialArguments) (p : Parameter) (v : String) :
    Except UsageError PartialArguments := do
  let r ← r.give p
  .ok { r with args := ← setValue r.args p v }

/-- Looks at what is waiting. -/
def settle (r : PartialArguments) : Except UsageError PartialArguments :=
  let settled := { r with waiting := .nothing }
  match r.waiting with
  | .nothing => .ok r
  | .parameter _ none => .error .invalidValue
  | .parameter p (some v) => settled.accept p v
  | .inputs paths =>
    if paths.contains "" then .error .invalidValue
    else .ok { settled with args := { r.args with inputs := r.args.inputs ++ paths } }

/-- Sets a parameter without a value. -/
def setFlag (r : PartialArguments) (p : Parameter) : Except UsageError PartialArguments := do
  let r ← (← r.settle).give p
  let a := r.args
  match p with
  | .wrap => .ok { r with args := { a with wrap := true } }
  | .lineNumbers => .ok { r with args := { a with lineNumbers := true } }
  | .listLexers => .ok { r with args := { a with listLexers := true } }
  | .verbose => .ok { r with args := { a with verbosity := min 255 (a.verbosity + 1) } }
  | .help => .error .displayHelp
  | .version => .error .displayVersion
  | _ => .ok r

/-- Starts a parameter that takes a value, which may be attached to it. -/
def start (r : PartialArguments) (p : Parameter) (attached : Option String) :
    Except UsageError PartialArguments := do
  let r ← r.settle
  match attached with
  | some v => r.accept p v
  | none => .ok { r with waiting := .parameter p none }

/-- A text without dashes: the value that is waited for, or an input. -/
def plain (r : PartialArguments) (s : String) : Except UsageError PartialArguments :=
  match r.waiting with
  | .parameter p none => .ok { r with waiting := .parameter p (some s) }
  | .inputs paths => .ok { r with waiting := .inputs (paths ++ [s]) }
  | _ => do .ok { ← r.settle with waiting := .inputs [s] }

/-- An input whatever it looks like. -/
def input (r : PartialArguments) (s : String) : Except UsageError PartialArguments :=
  match r.waiting with
  | .inputs paths => .ok { r with waiting := .inputs (paths ++ [s]) }
  | _ => do .ok { ← r.settle with waiting := .inputs [s] }

/-- What stands after two dashes: a name and perhaps a value. -/
def long (r : PartialArguments) (body : List Char) : Except UsageError PartialArguments :=
  let name := body.takeWhile (· != '=')
  let attached := match body.dropWhile (· != '=') with
    | [] => none
    | _ :: v => some (String.ofList v)
  match Parameter.ofLong? (String.ofList name) with
  | none => .error .unknownArgument
  | some p =>
    if p.takesValue then r.start p attached
    else if attached.isSome then .error .tooManyValues
    else r.setFlag p

/-- The letters after one dash: parameters without values and then perhaps one with a value. -/
def short (r : PartialArguments) : List Char → Except UsageError PartialArguments
  | [] => .ok r
  | c :: cs =>
    match Parameter.ofShort? c with
    | none => .error .unknownArgument
    | some p =>
      if p.takesValue then
        r.start p (match cs with
          | [] => none
          | '=' :: v => some (String.ofList v)
          | v => some (String.ofList v))
      else do short (← r.setFlag p) cs

/-- One part of a command line. -/
def part (r : PartialArguments) (s : String) : Except UsageError PartialArguments :=
  match s.toList with
  | '-' :: '-' :: c :: body => r.long (c :: body)
  | '-' :: c :: body => r.short (c :: body)
  | _ => r.plain s

/-- Reads the parts of a command line.  Behind two dashes alone there are only inputs. -/
def read (r : PartialArguments) : List String → Except UsageError PartialArguments
  | [] => r.settle
  | "--" :: rest => do (← rest.foldlM input r).settle
  | s :: rest => do read (← r.part s) rest

end PartialArguments

namespace Arguments

/-- Reads a command line. -/
def parse (line : List String) : Except UsageError Arguments := do
  .ok (← PartialArguments.read {} line).args

/-- The most verbose level of the notes to show. -/
def noteLevel (a : Arguments) : Level :=
  match a.verbosity with
  | 0 => .warning
  | 1 => .info
  | _ => .debug

/-- The preferences for the log: the environment's, with the level that is asked for. -/
def logging (a : Arguments) (env : Environment) : LoggingPreferences :=
  let p := LoggingPreferences.ofEnvironment env
  match a.verbosity with
  | 0 => p
  | 1 => { p with minLevel := p.minLevel.max .info }
  | _ => { p with minLevel := .debug }

end Arguments

end Highlighting
