import Highlighting.Log.Event
import Highlighting.Pattern.Match
import Highlighting.Text.Blank
import Highlighting.Text.CaseMap

/-!
# Which notes appear

Notes tell those who run the command what it does.  Which of them appear is written as a list of
directives, each of which sets the most verbose level for the sources whose names begin in some
way, and a pattern that the text of a note has to match.  Of the directives about a source the one
with the longest name decides; without any directive errors appear, and nothing else.
-/

namespace Highlighting

/-- The most verbose level to show for some sources, or that nothing is to be shown for them. -/
structure NoteDirective where
  /-- how the names of the sources begin, unless all are meant -/
  source : Option String
  limit : Option Level
deriving DecidableEq, Inhabited

namespace NoteDirective

/-- Reads a level, or the word that asks for nothing; notes have no level beyond debugging. -/
def limit? (word : String) : Option (Option Level) :=
  match asciiLowercase word with
  | "off" => some none
  | "error" => some (some .error)
  | "warn" => some (some .warning)
  | "info" => some (some .info)
  | "debug" | "trace" => some (some .debug)
  | _ => none

/-- Reads a directive: a level for all sources, a source that is shown in full, or both with an
equals sign between them. -/
def parse (text : String) : Except String NoteDirective :=
  match text.splitOn "=" with
  | [word] =>
    match limit? word with
    | some limit => .ok ⟨none, limit⟩
    | none => .ok ⟨some word, some .debug⟩
  | [source, word] =>
    if allBlank word then .ok ⟨some source, some .debug⟩
    else match limit? (trim word) with
      | some limit => .ok ⟨some (trim source), limit⟩
      | none => .error s!"invalid logging spec '{trim word}'"
  | _ => .error s!"invalid logging spec '{text}'"

/-- Whether the directive is about a source. -/
def isAbout (d : NoteDirective) (source : String) : Bool :=
  match d.source with
  | some start => start.toList.isPrefixOf source.toList
  | none => true

/-- Whether a level is within the limit. -/
def allows (d : NoteDirective) (level : Level) : Bool := d.limit.any level.isShown

/-- The length of the beginning that the directive asks for. -/
def length (d : NoteDirective) : Nat := (d.source.map String.utf8ByteSize).getD 0

end NoteDirective

/-- Which notes appear. -/
structure NoteFilter where
  directives : List NoteDirective
  /-- what the text of a note has to match -/
  pattern : Option Matcher := none
deriving DecidableEq, Inhabited

namespace NoteFilter

/-- Everything up to a level. -/
def upTo (level : Level) : NoteFilter := { directives := [⟨none, some level⟩] }

/-- Adds a directive, in the place of the one about the same sources if there is one. -/
def addDirective (d : NoteDirective) : List NoteDirective → List NoteDirective
  | [] => [d]
  | e :: es => if e.source = d.source then d :: es else e :: addDirective d es

/-- The directives of a list and the faults in it. -/
def readDirectives (text : String) : List NoteDirective × List String :=
  let parts := ((text.splitOn ",").map trim).filter (!·.isEmpty)
  parts.foldl (fun (ds, faults) part =>
    match NoteDirective.parse part with
    | .ok d => (addDirective d ds, faults)
    | .error fault => (ds, faults ++ [fault])) ([], [])

/-- Reads a filter: directives with commas between them, and after a slash the pattern.  What is
at fault is left out and named beside the filter. -/
def read (text : String) : NoteFilter × List String :=
  let (list, pattern) := match text.splitOn "/" with
    | [list] => (some list, none)
    | [list, pattern] => (some list, some pattern)
    | _ => (none, none)
  match list with
  | none => (upTo .error, [s!"invalid logging spec '{text}' (too many '/'s)"])
  | some list =>
    let (directives, faults) := readDirectives list
    let directives :=
      if directives.isEmpty then [⟨none, some .error⟩]
      else directives.mergeSort fun d e => d.length ≤ e.length
    match pattern.map fun p => Matcher.parse p.toList with
    | none => ({ directives }, faults)
    | some (.ok m) => ({ directives, pattern := some m }, faults)
    | some (.error cause) =>
      ({ directives }, faults ++ ["invalid regex filter - " ++ cause.message])

/-- Whether a note appears. -/
def shows (f : NoteFilter) (level : Level) (source message : String) : Bool :=
  match f.directives.reverse.find? (·.isAbout source) with
  | some d => d.allows level && f.pattern.all (·.isMatch message.toList)
  | none => false

theorem shows_upTo (limit level : Level) (source message : String) :
    (upTo limit).shows level source message = level.isShown limit := by
  simp [shows, upTo, NoteDirective.isAbout, NoteDirective.allows]

end NoteFilter

end Highlighting
