import Highlighting.CommandLine.Setup

/-!
# Batches

A batch highlights files one after the other, and a file that fails does not keep the others from
being highlighted.
-/

namespace Highlighting

/-- How many files a batch has seen, and how many of them failed. -/
structure BatchSummary where
  processed : Nat := 0
  failed : Nat := 0
deriving DecidableEq, Inhabited

namespace BatchSummary

/-- The summary after one more file. -/
def add (b : BatchSummary) (hasFailed : Bool) : BatchSummary :=
  ⟨b.processed + 1, if hasFailed then b.failed + 1 else b.failed⟩

end BatchSummary

/-- The path of the output for an input: its file name, with the format, in the folder. -/
def outputPath (folder input : String) (format : OutputFormat) : String :=
  Path.join folder ((Path.fileName? input).getD "output" ++ "." ++ format.name)

namespace Highlighter

/-- Writes the output for an input into a folder, or prints it. -/
def deliver (h : Highlighter) (outputDir : Option String) (path text : String) :
    Session (Except HighlightError Unit) :=
  match outputDir with
  | none => do
    Session.output (text ++ "\n")
    pure (.ok ())
  | some folder => do
    let target := outputPath folder path h.format
    match ← Session.write target text with
    | .error cause => pure (.error (.write target cause))
    | .ok () =>
      Session.note .info "highlight_cli" s!"{path} -> {target}"
      pure (.ok ())

/-- Highlights one file of a batch, and tells whether that failed. -/
def process (h : Highlighter) (outputDir : Option String) (path : String) : Session Bool := do
  let result ← match ← h.highlightFile path with
    | .error e => pure (.error e)
    | .ok text => h.deliver outputDir path text
  match result with
  | .ok () => pure false
  | .error e =>
    Session.complain s!"  ✗ {path}: {e.message}"
    Session.log (.error .internalError "File highlighting failed"
      [("file", path), ("error", e.message)])
    pure true

/-- Highlights files, the first of which has a given number. -/
def runFrom (h : Highlighter) (outputDir : Option String) :
    Nat → BatchSummary → List String → Session BatchSummary
  | _, b, [] => pure b
  | id, b, path :: paths => do
    let hasFailed ← Session.withFile ⟨path, id⟩ (h.process outputDir path)
    runFrom h outputDir (id + 1) (b.add hasFailed) paths

/-- Highlights files, and prints the outputs or writes them into a folder. -/
def runBatch (h : Highlighter) (files : List String) (outputDir : Option String) :
    Session BatchSummary :=
  h.runFrom outputDir 1 {} files

end Highlighter

end Highlighting
