import Highlighting.CommandLine.Highlighter

/-!
# Setting up

Before files are highlighted, extensions are registered and the inputs are expanded into files.
-/

namespace Highlighting

/-- Why nothing is highlighted at all. -/
inductive SetupError where
  | extension (e : ExtensionError)
  | inputNotFound (path : String)
deriving DecidableEq, Inhabited

namespace Category

/-- The category as one word. -/
def word : Category → String
  | text => "Text"
  | whitespace => "Whitespace"
  | error => "Error"
  | comment => "Comment"
  | commentSingle => "CommentSingle"
  | commentMultiline => "CommentMultiline"
  | commentPreproc => "CommentPreproc"
  | commentPreprocFile => "CommentPreprocFile"
  | keyword => "Keyword"
  | keywordConstant => "KeywordConstant"
  | keywordReserved => "KeywordReserved"
  | keywordType => "KeywordType"
  | name => "Name"
  | nameBuiltin => "NameBuiltin"
  | nameClass => "NameClass"
  | nameFunction => "NameFunction"
  | nameNamespace => "NameNamespace"
  | literal => "Literal"
  | string => "String"
  | stringChar => "StringChar"
  | stringEscape => "StringEscape"
  | number => "Number"
  | numberFloat => "NumberFloat"
  | numberHex => "NumberHex"
  | numberOct => "NumberOct"
  | numberBin => "NumberBin"
  | numberInteger => "NumberInteger"
  | operator => "Operator"
  | punctuation => "Punctuation"

end Category

/-- A name with named parts in braces. -/
def recordText (name : String) (parts : List (String × String)) : String :=
  name ++ " \x7b " ++ ", ".intercalate (parts.map fun p => p.1 ++ ": " ++ p.2) ++ " \x7d"

/-- Texts in quotes between brackets. -/
def listText (items : List String) : String :=
  "[" ++ ", ".intercalate (items.map quoted) ++ "]"

namespace GrammarError

/-- The cause and what it names. -/
def inDetail : GrammarError → String
  | invalidPattern state pattern cause =>
    recordText "InvalidPattern"
      [("state", quoted state), ("pattern", quoted pattern), ("source", cause.message)]
  | zeroWidthPattern state pattern =>
    recordText "ZeroWidthPattern" [("state", quoted state), ("pattern", quoted pattern)]
  | unknownState state referencedFrom =>
    recordText "UnknownState"
      [("state", quoted state), ("referenced_from", quoted referencedFrom)]
  | includeCycle path => recordText "IncludeCycle" [("path", listText path)]
  | emptyVocabulary category => recordText "EmptyVocabulary" [("category", category.word)]
  | missingRootState grammar => recordText "MissingRootState" [("grammar", quoted grammar)]
  | vocabularyTooLarge words limit =>
    recordText "VocabularyTooLarge" [("words", toString words), ("max", toString limit)]
  | patternTooLong length limit =>
    recordText "PatternTooLong" [("length", toString length), ("max", toString limit)]

end GrammarError

namespace ExtensionError

/-- The cause and what it names. -/
def inDetail : ExtensionError → String
  | malformed => "Parse"
  | unreadable path => recordText "Io" [("path", quoted path)]
  | unknownCategory category => recordText "UnknownCategory" [("category", quoted category)]
  | unknownBase base => recordText "UnknownBase" [("base", quoted base)]
  | grammar e => "Grammar(" ++ e.inDetail ++ ")"

end ExtensionError

namespace SetupError

/-- The error in words. -/
def message : SetupError → String
  | extension e => e.message
  | inputNotFound path => "Input not found: " ++ path

/-- The cause and what it names. -/
def inDetail : SetupError → String
  | extension e => "Extension(" ++ e.inDetail ++ ")"
  | inputNotFound path => recordText "InputNotFound" [("path", quoted path)]

end SetupError

namespace Extension

/-- Reads the file of an extension. -/
def ofFile (t : FileTree) (path : String) : Logged (Except ExtensionError Extension) :=
  let text := match t.find? path with
    | some (_, .file contents) => String.fromUTF8? contents
    | _ => none
  match text with
  | some text => parse text
  | none =>
    ⟨.error (.unreadable path),
     [.error .readFailure "Failed to read extension file" [("path", path)]]⟩

/-- The lexer that an extension makes of its base in a registry. -/
def lexerIn (x : Extension) (r : Registry) : Logged (Except ExtensionError Lexer) :=
  match r.get? x.base with
  | some base => x.extend base
  | none => pure (.error (.unknownBase x.base))

end Extension

namespace Registry

/-- Registers the extensions in some files, in order. -/
def withExtensionFiles (r : Registry) : List String → Session (Except ExtensionError Registry)
  | [] => pure (.ok r)
  | path :: paths => do
    match ← Session.logging (Extension.ofFile (← Session.files) path) with
    | .error e => pure (.error e)
    | .ok x =>
      match ← Session.logging (x.lexerIn r) with
      | .error e => pure (.error e)
      | .ok l =>
        Session.note .info "highlight_cli"
          s!"Registered extension {path} as '{l.tag}' on '{x.base}'"
        let (r, _) ← Session.logging (r.register l)
        withExtensionFiles r paths

/-- The built-in lexers and the extensions in some files. -/
def ofExtensionFiles (paths : List String) : Session (Except ExtensionError Registry) := do
  match ← Session.logging defaults with
  | .error e => pure (.error e)
  | .ok r => r.withExtensionFiles paths

/-- The paths of the files below a folder that some lexer claims. -/
def claimedBelow (r : Registry) (folder : String) : List Place → Session (List String)
  | [] => pure []
  | p :: ps => do
    let path := p.foldl Path.join folder
    if (r.forFilename? (p.getLast?.getD "")).isSome then
      pure (path :: (← claimedBelow r folder ps))
    else
      Session.note .debug "highlight_cli" s!"Skipping {path}"
      claimedBelow r folder ps

/-- Expands inputs: a file stands for itself, and a folder for the files below it that some lexer
claims. -/
def filesOf (r : Registry) : List String → Session (Except SetupError (List String))
  | [] => pure (.ok [])
  | path :: paths => do
    let t ← Session.files
    match t.find? path with
    | none => pure (.error (.inputNotFound path))
    | some (_, .file _) => do pure ((← filesOf r paths).map (path :: ·))
    | some (p, .folder) => do
      let found ← claimedBelow r path ((t.filesBelow p).map (·.1))
      pure ((← filesOf r paths).map (found ++ ·))

end Registry

end Highlighting
