/-!
# Codes of events

Every event carries a code.  `Code.info?` holds what is known of the codes of errors and warnings:
the area they belong to, how severe they are, whether work can go on, and what to do.  Codes of
successes, and codes that nobody has described, have no entry and count as recoverable, of medium
severity and of an unknown area.
-/

namespace Highlighting

/-- The code of an event. -/
structure Code where
  name : String
deriving DecidableEq, Inhabited

/-- How bad an event is. -/
inductive Severity where
  | critical | high | medium | low
deriving DecidableEq, Inhabited

namespace Severity

/-- The severity in words. -/
def name : Severity → String
  | critical => "Critical"
  | high => "High"
  | medium => "Medium"
  | low => "Low"

/-- The severity as a number, the worst being 0. -/
def rank : Severity → Nat
  | critical => 0
  | high => 1
  | medium => 2
  | low => 3

end Severity

/-- What is known of a code. -/
structure CodeInfo where
  code : String
  area : String
  severity : Severity
  recoverable : Bool
  requiresHalt : Bool
  description : String
  action : String
deriving DecidableEq, Inhabited

namespace Code

/-! ### The codes -/

def internalError : Code := ⟨"ERR001"⟩
def initializationFailure : Code := ⟨"ERR002"⟩
def fileNotFound : Code := ⟨"E005"⟩
def unknownExtension : Code := ⟨"E006"⟩
def fileTooLarge : Code := ⟨"E007"⟩
def emptyFile : Code := ⟨"E008"⟩
def permissionDenied : Code := ⟨"E009"⟩
def invalidEncoding : Code := ⟨"E010"⟩
def ioError : Code := ⟨"E011"⟩
def invalidPath : Code := ⟨"E012"⟩
def invalidPattern : Code := ⟨"E020"⟩
def zeroWidthPattern : Code := ⟨"E021"⟩
def unknownState : Code := ⟨"E022"⟩
def includeCycle : Code := ⟨"E023"⟩
def emptyVocabulary : Code := ⟨"E024"⟩
def missingRootState : Code := ⟨"E025"⟩
def vocabularyTooLarge : Code := ⟨"E026"⟩
def tokenLimitReached : Code := ⟨"W030"⟩
def stateDepthExceeded : Code := ⟨"W031"⟩
def unmatchedInput : Code := ⟨"W032"⟩
def parseFailure : Code := ⟨"E040"⟩
def unknownCategory : Code := ⟨"E041"⟩
def unknownBaseLexer : Code := ⟨"E042"⟩
def readFailure : Code := ⟨"E043"⟩
def unknownTag : Code := ⟨"W050"⟩
def tagReplaced : Code := ⟨"W051"⟩
def invalidFilenamePattern : Code := ⟨"W052"⟩
def serializationFailure : Code := ⟨"E060"⟩
def systemInitializationCompleted : Code := ⟨"I004"⟩
def fileProcessingSuccess : Code := ⟨"I006"⟩
def tokenizationComplete : Code := ⟨"I020"⟩
def grammarCompiled : Code := ⟨"I021"⟩
def extensionApplied : Code := ⟨"I040"⟩
def lexerRegistered : Code := ⟨"I050"⟩
def renderComplete : Code := ⟨"I060"⟩
def disclosureToggled : Code := ⟨"I070"⟩

/-- The described codes. -/
def known : List CodeInfo :=
  [⟨"ERR001", "System", .critical, false, true,
    "Critical internal system error",
    "File a bug report with the failing input"⟩,
   ⟨"ERR002", "System", .critical, false, true,
    "System initialization failure",
    "Check configuration and environment variables"⟩,
   ⟨"E005", "FileProcessing", .high, true, false,
    "Source file not found",
    "Check the file path"⟩,
   ⟨"E006", "FileProcessing", .low, true, false,
    "No registered lexer claims this file extension",
    "Pass --lang explicitly or register a lexer for the extension"⟩,
   ⟨"E007", "FileProcessing", .high, true, false,
    "Source file exceeds the compile-time size limit",
    "Split the file or rebuild with a larger limit profile"⟩,
   ⟨"E008", "FileProcessing", .low, true, false,
    "Source file is empty",
    "Provide content in the source file"⟩,
   ⟨"E009", "FileProcessing", .high, true, false,
    "Permission denied while reading source file",
    "Check file permissions"⟩,
   ⟨"E010", "FileProcessing", .medium, true, false,
    "Source file is not valid UTF-8",
    "Convert the file to UTF-8"⟩,
   ⟨"E011", "FileProcessing", .high, true, false,
    "I/O error while reading source file",
    "Check the file system and retry"⟩,
   ⟨"E012", "FileProcessing", .medium, true, false,
    "Invalid source path",
    "Provide a path to a regular file"⟩,
   ⟨"E020", "Grammar", .high, false, true,
    "Rule pattern is not a valid regular expression",
    "Fix the pattern syntax"⟩,
   ⟨"E021", "Grammar", .high, false, true,
    "Rule pattern can match empty input",
    "Make the pattern consume at least one character"⟩,
   ⟨"E022", "Grammar", .high, false, true,
    "Rule refers to an undeclared state",
    "Declare the state or fix the state name"⟩,
   ⟨"E023", "Grammar", .high, false, true,
    "State includes form a cycle",
    "Remove the circular include"⟩,
   ⟨"E024", "Grammar", .medium, false, true,
    "Vocabulary rule has no words",
    "List at least one word in the rule"⟩,
   ⟨"E025", "Grammar", .high, false, true,
    "Grammar has no root state",
    "Declare a root state"⟩,
   ⟨"E026", "Grammar", .medium, false, true,
    "Vocabulary or pattern exceeds compile-time limits",
    "Split the vocabulary into several rules"⟩,
   ⟨"W030", "Lexical", .medium, true, false,
    "Token limit reached; remaining input left unclassified",
    "Highlight smaller inputs or raise the token limit"⟩,
   ⟨"W031", "Lexical", .low, true, false,
    "State stack depth limit reached; push ignored",
    "Check the grammar for unbalanced push rules"⟩,
   ⟨"W032", "Lexical", .low, true, false,
    "Input character matched no rule",
    "Add a rule covering the character if it should be classified"⟩,
   ⟨"E040", "Extension", .high, true, false,
    "Extension file is not valid TOML",
    "Fix the TOML syntax"⟩,
   ⟨"E041", "Extension", .medium, true, false,
    "Extension names an unknown token category",
    "Use a qualified category such as Keyword.Type"⟩,
   ⟨"E042", "Extension", .medium, true, false,
    "Extension names an unknown base lexer",
    "Use a registered lexer tag such as cpp"⟩,
   ⟨"E043", "Extension", .high, true, false,
    "Extension file could not be read",
    "Check the extension file path"⟩,
   ⟨"W050", "Registry", .low, true, false,
    "Requested language tag is not registered; plaintext used",
    "Register a lexer for the tag"⟩,
   ⟨"W051", "Registry", .low, true, false,
    "Lexer tag re-registered; previous lexer replaced",
    "No action required when the override is intended"⟩,
   ⟨"W052", "Registry", .low, true, false,
    "Filename glob does not compile; pattern ignored",
    "Fix the pattern in the lexer's filename list"⟩,
   ⟨"E060", "Render", .medium, true, false,
    "Token stream could not be serialized",
    "Report the failing input"⟩]

/-- The description of a code. -/
def info? (c : Code) : Option CodeInfo := known.find? fun i => i.code == c.name

/-- How bad events with a code are. -/
def severity (c : Code) : Severity := (c.info?.map CodeInfo.severity).getD .medium

/-- The area that a code belongs to. -/
def area (c : Code) : String := (c.info?.map CodeInfo.area).getD "Unknown"

/-- Whether work can go on after an event with a code. -/
def recoverable (c : Code) : Bool := (c.info?.map CodeInfo.recoverable).getD true

/-- Whether work has to stop at an event with a code. -/
def requiresHalt (c : Code) : Bool := (c.info?.map CodeInfo.requiresHalt).getD false

/-- What a code means. -/
def description (c : Code) : String :=
  (c.info?.map CodeInfo.description).getD "Unknown error"

/-- What to do about a code. -/
def action (c : Code) : String :=
  (c.info?.map CodeInfo.action).getD "No specific action available"

end Code

end Highlighting
