import Highlighting.CommandLine.Batch
import Highlighting.Log.NoteFilter
import Highlighting.Log.Service

/-!
# The program

`Program.start` reads a command line, does what it asks for and gives the exit code; all that it
shows are effects of its session.  `Program.shownFor` says what appears on the two streams for an
effect; which events appear there is up to the log service.
-/

namespace Highlighting

namespace Program

/-- Room around a text on its right side. -/
def padded (width : Nat) (s : String) : String :=
  s ++ String.ofList (List.replicate (width - s.length) ' ')

/-- How a lexer is listed. -/
def listing (l : Lexer) : String :=
  let row := fun title items =>
    if items.isEmpty then ""
    else "           " ++ title ++ " " ++ ", ".intercalate items ++ "\n"
  padded 10 l.tag ++ " " ++ l.info.title ++ "\n" ++ row "aliases:  " l.info.aliases ++
    row "filenames:" l.info.filenames

/-- Notes that the fixed limits are in force. -/
def limitsEvent : Event :=
  .debug "File processor compile-time configuration loaded"
    [("max_file_size", toString Limits.maxFileSize),
     ("large_file_threshold", toString Limits.largeFileThreshold),
     ("max_line_count", toString Limits.maxLines)]

/-- Highlights the inputs of a command line. -/
def highlightInputs (args : Arguments) (h : Highlighter) : Session UInt8 := do
  if args.inputs.isEmpty then
    Session.complain "Error: no input files or directories given"
    Session.complain "Usage: highlight [OPTIONS] <INPUT>..."
    pure 2
  else
    match ← h.registry.filesOf args.inputs with
    | .error e =>
      Session.complain s!"Error: {e.inDetail}"
      pure 1
    | .ok [] =>
      Session.note .warning "highlight" "No highlightable files found"
      pure 0
    | .ok files =>
      Session.note .info "highlight" s!"Highlighting {files.length} files"
      let summary ← h.runBatch files args.outputDir
      Session.log (.success .renderComplete "Highlighting completed"
        [("files", toString summary.processed), ("failed", toString summary.failed)])
      pure (if summary.failed = 0 then 0 else 1)

/-- The variable that says which notes appear. -/
def noteVariable : String := "RUST_LOG"

/-- Which notes appear, and the faults in what the environment says about it.  Without the
environment's word the command line decides. -/
def noteFilter (env : Environment) (args : Arguments) : NoteFilter × List String :=
  match env.get? noteVariable with
  | some text => NoteFilter.read text
  | none => (.upTo args.noteLevel, [])

/-- Does what a command line asks for, and gives the exit code. -/
def run (env : Environment) (args : Arguments) : Session UInt8 := do
  (noteFilter env args).2.forM fun fault =>
    Session.complain s!"warning: {fault}, ignoring it"
  Session.modify fun s => { s with marksFiles := (args.logging env).marksFiles }
  Session.logUnmarked
    (.success .systemInitializationCompleted "Global logging system initialized")
  Session.note .debug "highlight" (args.logging env).summary
  Session.log limitsEvent
  match ← Registry.ofExtensionFiles args.extensions with
  | .error e =>
    Session.complain s!"Error: {(SetupError.extension e).inDetail}"
    pure 1
  | .ok r =>
    let h := Highlighter.ofArguments r args env
    if args.listLexers then
      Session.output (String.join (r.lexers.map listing))
      pure 0
    else if args.format = .css then
      Session.output h.stylesheet
      pure 0
    else highlightInputs args h

/-- What is shown to those who ask for help. -/
def helpText : String :=
  String.join <| [
    "Highlight C and C++ sources as site-ready HTML",
    "",
    "Usage: highlight [OPTIONS] [INPUTS]...",
    "",
    "Options:",
    "  -l, --lang <LANG>              Lexer tag or alias to use for every file",
    "  -f, --format <FORMAT>          Output format: html, json or css",
    "  -e, --extension <TOML>         Vocabulary extension to register",
    "      --wrap                     Wrap HTML in elements with a class",
    "      --line-numbers             Emit a line-number table",
    "  -o, --output-dir <OUTPUT_DIR>  Write one output file per input here",
    "      --list-lexers              Print the registered lexers and exit",
    "  -v, --verbose...               Increase verbosity",
    "  -h, --help                     Print help",
    "  -V, --version                  Print version"].map (· ++ "\n")

/-- What is said about a command line that is not run, and the exit code. -/
def refuse : UsageError → Session UInt8
  | .displayHelp => do Session.output helpText; pure 0
  | .displayVersion => do Session.output "highlight 0.1.0\n"; pure 0
  | .invalidValue => do Session.complain "error: a value is missing or invalid"; pure 2
  | .unknownArgument => do Session.complain "error: unexpected argument found"; pure 2
  | .argumentConflict => do
    Session.complain "error: an argument cannot be used multiple times"
    pure 2
  | .tooManyValues => do Session.complain "error: unexpected value found"; pure 2

/-- Reads a command line and does what it asks for. -/
def start (env : Environment) (line : List String) : Session UInt8 :=
  match Arguments.parse line with
  | .ok args => run env args
  | .error e => refuse e

/-! ### What appears -/

/-- Where the effects of a run appear. -/
structure Settings where
  service : LogService
  notes : NoteFilter

/-- The log service of a run. -/
def service (p : LoggingPreferences) : LogService :=
  ⟨if p.structured then .structured p.level else .console p.level, p.level⟩

/-- Where the effects of a command line appear. -/
def settings (env : Environment) (line : List String) : Settings :=
  let args := (Arguments.parse line).toOption.getD {}
  ⟨service (args.logging env), (noteFilter env args).1⟩

/-- A note as it appears on the error stream. -/
def noteLines (level : Level) (source message : String) : List String :=
  match message.splitOn "\n" with
  | [] => []
  | first :: rest => s!"[{padded 5 level.name} {source}] {first}" :: rest.map ("    " ++ ·)

/-- A text on one of the two streams. -/
inductive Shown where
  | out (text : String)
  | err (text : String)
deriving DecidableEq, Inhabited

/-- What appears for an effect. -/
def shownFor (s : Settings) : Effect → List Shown
  | .output text => [.out text]
  | .complaint line => [.err (line ++ "\n")]
  | .event e =>
    let w := (s.service.log e).2
    w.out.map (fun l => .out (l ++ "\n")) ++ w.err.map fun l => .err (l ++ "\n")
  | .note level source message =>
    if s.notes.shows level source message then
      (noteLines level source message).map fun l => .err (l ++ "\n")
    else []

end Program

end Highlighting
