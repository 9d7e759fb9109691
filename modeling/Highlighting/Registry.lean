import Highlighting.Language.EngineVocabulary
import Highlighting.Language.PlainText

/-!
# Registries of lexers

A registry lists lexers in the order of registration.  A lexer whose tag is registered already
takes the place of the old one and moves to the end, and look-ups prefer the lexer registered
last.
-/

namespace Highlighting

/-- Lexers in the order of registration. -/
structure Registry where
  lexers : List Lexer := []
deriving DecidableEq, Inhabited

namespace Registry

/-- The registered lexers without the first one that has a tag. -/
def without (tag : String) : List Lexer → List Lexer
  | [] => []
  | l :: ls => if l.tag = tag then ls else l :: without tag ls

/-- The first lexer with exactly a tag. -/
def held? (r : Registry) (tag : String) : Option Lexer := r.lexers.find? fun l => l.tag == tag

/-- Registers a lexer. -/
def insert (r : Registry) (l : Lexer) : Registry := ⟨without l.tag r.lexers ++ [l]⟩

/-- Registers a lexer, reports it, and gives the lexer that it takes the place of. -/
def register (r : Registry) (l : Lexer) : Logged (Registry × Option Lexer) :=
  let replaced := r.held? l.tag
  let warning := match replaced with
    | some old =>
      [Event.warningWith .tagReplaced "Lexer tag re-registered, replacing previous lexer"
        [("tag", l.tag), ("previous", old.info.title)]]
    | none => []
  ⟨(r.insert l, replaced),
   warning ++ [.success .lexerRegistered "Lexer registered"
    [("tag", l.tag), ("title", l.info.title)]]⟩

/-- The lexer registered last that answers to a name. -/
def get? (r : Registry) (name : String) : Option Lexer :=
  r.lexers.reverse.find? fun l => l.info.answersTo name

/-- The lexer that answers to a name, or else the one for plain text. -/
def find? (r : Registry) (name : String) : Logged (Option Lexer) :=
  match r.get? name with
  | some l => pure (some l)
  | none =>
    ⟨r.get? PlainText.tag,
     [.warningWith .unknownTag "Unknown lexer tag, falling back to plain text" [("tag", name)]]⟩

/-- The lexer registered last that claims a file name. -/
def forFilename? (r : Registry) (name : String) : Option Lexer :=
  r.lexers.reverse.find? fun l => l.info.matchesFilename name

/-- A source as one token of plain text, or none when it is empty. -/
def unclassified (source : String) : TokenStream :=
  if source.isEmpty then [] else [⟨.text, source, .covering .start source.toList⟩]

/-- Tokenizes a source with the lexer for a tag; without one the source stays unclassified. -/
def highlight (r : Registry) (tag source : String) : Logged TokenStream := do
  match ← r.find? tag with
  | some l => l.tokenize source
  | none => pure (unclassified source)

/-- The registered tags in order. -/
def tags (r : Registry) : List String := r.lexers.map Lexer.tag

/-- Puts a text into a list in increasing order unless it is there. -/
def insertSorted (s : String) : List String → List String
  | [] => [s]
  | t :: ts => if s < t then s :: t :: ts else if s = t then t :: ts else t :: insertSorted s ts

/-- The extensions that lexers claim, in lower case, in increasing order. -/
def knownExtensions (r : Registry) : List String :=
  (r.lexers.flatMap fun l => l.info.extensions.map lowercase).foldr insertSorted []

/-- Registers lexers as they are built, up to the first that cannot be built. -/
def registerBuilt : Registry → List (Logged (Except ExtensionError Lexer)) →
    Logged (Except ExtensionError Registry)
  | r, [] => pure (.ok r)
  | r, built :: rest => do
    match ← built with
    | .ok l =>
      let (r, _) ← r.register l
      registerBuilt r rest
    | .error e => pure (.error e)

/-- A lexer whose grammar stands on its own, as one that may come from an extension. -/
def ofGrammar (built : Logged (Except GrammarError Lexer)) :
    Logged (Except ExtensionError Lexer) :=
  ⟨built.value.mapError .grammar, built.events⟩

/-- Plain text, C, C++, and C++ with the engine's vocabulary, which takes the place of C++. -/
def defaults : Logged (Except ExtensionError Registry) :=
  registerBuilt ⟨[]⟩
    [ofGrammar PlainText.lexer, ofGrammar CFamily.cLexer, ofGrammar CFamily.cppLexer,
     EngineVocabulary.lexer]

end Registry

end Highlighting
