import Highlighting.Log.Code
import Highlighting.Text.Quoted

/-!
# What can be wrong with a source file
-/

namespace Highlighting

/-- Why a source file is refused. -/
inductive FileError where
  | notFound (path : String)
  | unknownExtension (ext : Option String)
  | tooLarge (size limit : Nat)
  | empty
  | permissionDenied (path : String)
  | invalidEncoding (path : String)
  | unreadable (reason : String)
  | invalidPath (path : String)
  | tooManyLines (lines limit : Nat)
deriving DecidableEq, Inhabited

namespace FileError

/-- An extension that may be missing. -/
def extensionText : Option String → String
  | some ext => "Some(" ++ quoted ext ++ ")"
  | none => "None"

/-- What the error says. -/
def message : FileError → String
  | notFound path => "File not found: " ++ path
  | unknownExtension ext => "No lexer claims file extension " ++ extensionText ext
  | tooLarge size limit => s!"File too large: {size} bytes (max: {limit})"
  | empty => "File is empty"
  | permissionDenied path => "Permission denied: " ++ path
  | invalidEncoding path => "Invalid UTF-8 encoding in file: " ++ path
  | unreadable reason => "I/O error reading file: " ++ reason
  | invalidPath path => "Invalid file path: " ++ path
  | tooManyLines lines limit => s!"File exceeds maximum line count: {lines} (max: {limit})"

/-- The code under which the error is logged. -/
def code : FileError → Code
  | notFound _ => .fileNotFound
  | unknownExtension _ => .unknownExtension
  | tooLarge _ _ => .fileTooLarge
  | empty => .emptyFile
  | permissionDenied _ => .permissionDenied
  | invalidEncoding _ => .invalidEncoding
  | unreadable _ => .ioError
  | invalidPath _ => .invalidPath
  | tooManyLines _ _ => .fileTooLarge

end FileError

end Highlighting
