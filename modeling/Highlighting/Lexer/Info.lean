import Highlighting.Glob
import Highlighting.Json
import Highlighting.Log.Logged
import Highlighting.Text.CaseMap

/-!
# What is known of a lexer

A lexer answers to its tag and its aliases, and claims the files whose names match one of its
patterns.
-/

namespace Highlighting

/-- The names and file name patterns of a lexer. -/
structure LexerInfo where
  tag : String
  title : String
  description : String := ""
  aliases : List String := []
  /-- file name patterns, all of them well-formed -/
  filenames : List String := []
  mimetypes : List String := []
deriving DecidableEq, Inhabited

namespace LexerInfo

/-- Keeps the well-formed file name patterns of a list, and reports the others. -/
def withFilenames (info : LexerInfo) (filenames : List String) : Logged LexerInfo :=
  let isBad := fun f => (Glob.parse? f).isNone
  ⟨{ info with filenames := filenames.filter fun f => !isBad f },
   (filenames.filter isBad).map fun f =>
    .warningWith .invalidFilenamePattern "Ignoring invalid filename pattern"
      [("tag", info.tag), ("pattern", f)]⟩

/-- Whether a name is the tag or an alias, up to the case of ASCII letters. -/
def answersTo (info : LexerInfo) (name : String) : Bool :=
  eqIgnoringAsciiCase info.tag name || info.aliases.any fun a => eqIgnoringAsciiCase a name

/-- Whether a file name matches one of the patterns. -/
def matchesFilename (info : LexerInfo) (name : String) : Bool :=
  info.filenames.any fun f =>
    match Glob.parse? f with
    | some g => g.isMatch name
    | none => false

/-- The extension that a pattern of the form `*.ext` names. -/
def extensionOf? (filename : String) : Option String :=
  match filename.toList with
  | '*' :: '.' :: ext =>
    if ext.contains '*' || ext.contains '?' then none else some (String.ofList ext)
  | _ => none

/-- The extensions named by patterns of the form `*.ext`. -/
def extensions (info : LexerInfo) : List String := info.filenames.filterMap extensionOf?

/-- The structured form. -/
def toJson (info : LexerInfo) : Json :=
  let texts := fun l => Json.array (l.map Json.string)
  .object [("tag", .string info.tag), ("title", .string info.title),
    ("description", .string info.description), ("aliases", texts info.aliases),
    ("filenames", texts info.filenames), ("mimetypes", texts info.mimetypes)]

end LexerInfo

end Highlighting
