import Highlighting.Files.Error
import Highlighting.Files.Size
import Highlighting.Files.Tree
import Highlighting.Log.Logged
import Highlighting.Settings.Files
import Highlighting.Text.Blank
import Highlighting.Text.CaseMap

/-!
# Source files

A reader finds a file, checks what it is before it looks into it, and gives its text with what is
known of the file.  `SourceReader.read` reports each step.
-/

namespace Highlighting

/-- The text of a file and what is known of the file. -/
structure SourceFile where
  text : String
  place : Place
  /-- the size in bytes -/
  size : Nat
  /-- the extension in lower case -/
  ext : Option String
  lineCount : Nat
deriving DecidableEq, Inhabited

namespace SourceFile

/-- The file name. -/
def name? (f : SourceFile) : Option String := f.place.getLast?

/-- Whether the text holds blanks only. -/
def isBlank (f : SourceFile) : Bool := f.text.all Highlighting.isBlank

end SourceFile

/-- The number of lines: the last one need not end with a line feed. -/
def lineCount (text : String) : Nat :=
  let (n, isOpen) := text.foldl (fun (n, _) c => if c = '\n' then (n + 1, false) else (n, true))
    (0, false)
  if isOpen then n + 1 else n

/-- How source files are read. -/
structure SourceReader where
  preferences : FilePreferences := {}
  /-- the extensions that some lexer claims, in lower case and without a point -/
  knownExtensions : List String := []
deriving DecidableEq, Inhabited

namespace SourceReader

/-- The reader that knows the given extensions, which may start with points. -/
def withKnownExtensions (r : SourceReader) (exts : List String) : SourceReader :=
  { r with knownExtensions :=
      exts.map fun e => lowercase (String.ofList (e.toList.dropWhile (· == '.'))) }

/-- Whether the extension of a file is known. -/
def isKnown (r : SourceReader) (ext : Option String) : Bool :=
  match ext with
  | some e => r.knownExtensions.contains e
  | none => false

/-- Reports an error and refuses the file. -/
def refuse {α : Type} (e : FileError) (message : String) (context : Context) :
    Logged (Except FileError α) :=
  ⟨.error e, [.error e.code message context]⟩

/-- Reports a truth value. -/
def flag (b : Bool) : String := if b then "true" else "false"

/-- Finds the file at a path. -/
def locate (t : FileTree) (path : String) : Logged (Except FileError (Place × ByteArray)) :=
  if path = "" then refuse (.invalidPath path) "Empty file path provided" []
  else
    match t.find? path with
    | none => refuse (.notFound path) "File not found" [("path", path)]
    | some (_, .folder) => refuse (.invalidPath path) "Path is not a file" [("path", path)]
    | some (p, .file contents) => pure (.ok (p, contents))

/-- Checks a file before it is read: its size first, then its extension. -/
def check (r : SourceReader) (path : String) (size : Nat) (ext : Option String) :
    Logged (Except FileError Unit) :=
  if Limits.maxFileSize < size then
    refuse (.tooLarge size Limits.maxFileSize) "File exceeds compile-time maximum size limit"
      [("file", path), ("size_human", FileSize.shown size),
       ("limit_human", FileSize.shown Limits.maxFileSize)]
  else if size = 0 then refuse .empty "File is empty" [("file", path)]
  else if r.preferences.requireKnown && !r.isKnown ext then
    refuse (.unknownExtension ext) "File extension not claimed by any lexer"
      [("file", path), ("extension", ext.getD "none")]
  else pure (.ok ())

/-- The text of a file, which has to be UTF-8. -/
def decode (path : String) (p : Place) (contents : ByteArray) :
    Logged (Except FileError String) :=
  match String.fromUTF8? contents with
  | none => refuse (.invalidEncoding p.path) "Failed to read file contents" [("file", path)]
  | some text =>
    ⟨.ok text,
     [.debug "File content read" [("file", path), ("bytes", toString text.utf8ByteSize)]]⟩

/-- Reports a file that was read. -/
def success (r : SourceReader) (path : String) (f : SourceFile) : Event :=
  let size := toString f.size
  let lines := toString f.lineCount
  if r.preferences.reportDetails then
    .success .fileProcessingSuccess "File read with performance metrics"
      [("file", path), ("size_bytes", size), ("size_human", FileSize.shown f.size),
       ("lines", lines), ("chars", toString f.text.length),
       ("is_large_file", flag (FileSize.isLarge f.size))]
  else
    .success .fileProcessingSuccess "File read"
      [("file", path), ("size_bytes", size), ("lines", lines)]

/-- Reads the file at a path. -/
def read (r : SourceReader) (t : FileTree) (path : String) :
    Logged (Except FileError SourceFile) := do
  Logged.report (.debug "Starting file processing" [("file", path)])
  match ← locate t path with
  | .error e => pure (.error e)
  | .ok (place, contents) =>
    let size := contents.size
    let ext := (place.getLast?.bind Path.extensionOf?).map lowercase
    Logged.report (.debug "File metadata collected"
      [("size_bytes", toString size), ("size_human", FileSize.shown size),
       ("extension", ext.getD "none"), ("is_large_file", flag (FileSize.isLarge size))])
    match ← r.check path size ext with
    | .error e => pure (.error e)
    | .ok () =>
      match ← decode path place contents with
      | .error e => pure (.error e)
      | .ok text =>
        let lines := lineCount text
        if Limits.maxLines < lines then
          refuse (.tooManyLines lines Limits.maxLines) "File exceeds maximum line count"
            [("file", path), ("lines", toString lines), ("max_lines", toString Limits.maxLines)]
        else
          let f : SourceFile := ⟨text, place, size, ext, lines⟩
          Logged.report (r.success path f)
          pure (.ok f)

end SourceReader

end Highlighting
