import Highlighting.CommandLine.Arguments
import Highlighting.Extension.Reader
import Highlighting.Files.Source
import Highlighting.Registry
import Highlighting.Render.Html
import Highlighting.Render.Records
import Highlighting.Render.Theme
import Highlighting.Session

/-!
# Highlighting files

A highlighter has all that it takes to turn a file into output: lexers to choose from, a reader for
files, and the preferences for scanning and rendering.
-/

namespace Highlighting

/-- Why a file is not highlighted. -/
inductive HighlightError where
  | noLexer (name : String)
  | file (e : FileError)
  | write (path : String) (cause : FileTree.WriteFailure)
deriving DecidableEq, Inhabited

namespace HighlightError

/-- The error in words. -/
def message : HighlightError → String
  | noLexer name => s!"No lexer available for '{name}'"
  | file e => e.message
  | write path cause => s!"Failed to write {path}: {cause.message}"

end HighlightError

/-- Lexers, a reader and preferences. -/
structure Highlighter where
  registry : Registry
  reader : SourceReader
  lang : Option String
  format : OutputFormat
  render : RenderPreferences
  lexical : LexicalPreferences
deriving DecidableEq, Inhabited

namespace Highlighter

/-- The highlighter that a command line asks for in an environment. -/
def ofArguments (r : Registry) (args : Arguments) (env : Environment) : Highlighter where
  registry := r
  reader := SourceReader.withKnownExtensions ⟨.ofEnvironment env, []⟩ r.knownExtensions
  lang := args.lang
  format := args.format
  render :=
    { RenderPreferences.ofEnvironment env with
      wrapOutput := args.wrap
      lineNumbers := args.lineNumbers }
  lexical := .ofEnvironment env

/-- The lexer that was found under a name. -/
def orNoLexer (name : String) : Option Lexer → Except HighlightError Lexer
  | some l => .ok l
  | none => .error (.noLexer name)

/-- The lexer for a file: the one that was asked for, or the one that claims the file name, or the
one for plain text. -/
def selectLexer (h : Highlighter) (path : String) : Logged (Except HighlightError Lexer) :=
  match h.lang with
  | some lang => do pure (orNoLexer lang (← h.registry.find? lang))
  | none =>
    let name := (Path.fileName? path).getD ""
    match h.registry.forFilename? name with
    | some l => pure (.ok l)
    | none => pure (orNoLexer name (h.registry.get? PlainText.tag))

/-- What is written for a stream of tokens. -/
def rendered (h : Highlighter) (ts : TokenStream) : String :=
  match h.format with
  | .html => Html.render h.render ts
  | .json => Records.render true ts
  | .css => ""

/-- A note on how much of a source was classified, in percent. -/
def coverageNote (path : String) (l : Lexer) (m : Metrics) : String :=
  let share :=
    if m.bytesScanned = 0 then fixed 1 100 1
    else fixed 1 (100 * (m.bytesScanned - m.fallbackCharacters)) m.bytesScanned
  s!"{path}: {m.totalTokens} tokens with '{l.tag}', coverage {share}%"

/-- The output for a file. -/
def highlightFile (h : Highlighter) (path : String) : Session (Except HighlightError String) := do
  match ← Session.logging (h.selectLexer path) with
  | .error e => pure (.error e)
  | .ok l =>
    match ← Session.logging (h.reader.read (← Session.files) path) with
    | .error e => pure (.error (.file e))
    | .ok f =>
      let t ← Session.logging (l.grammar.tokenize h.lexical f.text)
      Session.note .debug "highlight_cli" (coverageNote path l t.metrics)
      pure (.ok (h.rendered t.tokens))

/-- The style sheet for the class of the output. -/
def stylesheet (h : Highlighter) : String := Theme.github.css ("." ++ h.render.cssClass)

end Highlighter

end Highlighting
