import Highlighting.Lexer.Basic
import Highlighting.Vocabulary

/-!
# Extensions

An extension adds vocabularies to a lexer: each of its rules is a vocabulary and the states it
goes into.  The rules for one state go in front of all that the state has, in the order in which
the extension lists them, so that the first listed is the first tried.
-/

namespace Highlighting

/-- The states that a rule goes into when none are named. -/
def defaultContexts : List String := [rootState, "statements"]

/-- A vocabulary and the states it goes into. -/
structure ExtensionRule where
  contexts : List String := defaultContexts
  vocabulary : Vocabulary
deriving DecidableEq, Inhabited

/-- Vocabularies for a lexer. -/
structure Extension where
  /-- the tag of the extended lexer, unless it is the base's name -/
  ownTag : Option String := none
  /-- the name of the lexer to extend -/
  base : String
  rules : List ExtensionRule := []
deriving DecidableEq, Inhabited

/-- Why a lexer cannot be extended. -/
inductive ExtensionError where
  /-- the text of an extension is not well-formed -/
  | malformed
  /-- the file of an extension cannot be read -/
  | unreadable (path : String)
  | unknownCategory (category : String)
  | unknownBase (base : String)
  | grammar (e : GrammarError)
deriving DecidableEq, Inhabited

namespace ExtensionError

/-- The error in words. -/
def message : ExtensionError → String
  | malformed => "Invalid extension definition: malformed text"
  | unreadable path => s!"Cannot read extension file {path}: input/output error"
  | unknownCategory category => Category.unknownName category
  | unknownBase base => s!"Unknown base lexer '{base}'"
  | grammar e => e.message

/-- The code under which the error is logged. -/
def code : ExtensionError → Code
  | malformed => .parseFailure
  | unreadable _ => .readFailure
  | unknownCategory _ => .unknownCategory
  | unknownBase _ => .unknownBaseLexer
  | grammar e => e.code

end ExtensionError

namespace Extension

/-- The tag of the extended lexer. -/
def tag (x : Extension) : String := x.ownTag.getD x.base

/-- Puts an entry at the end of the block of a state. -/
def addToBlock (state : String) (entry : Entry) :
    List (String × List Entry) → List (String × List Entry)
  | [] => [(state, [entry])]
  | b :: bs => if b.1 == state then (b.1, b.2 ++ [entry]) :: bs else b :: addToBlock state entry bs

/-- The entries for each state, the states in the order in which they are first named. -/
def blocksFrom (blocks : List (String × List Entry)) :
    List ExtensionRule → Except GrammarError (List (String × List Entry))
  | [] => .ok blocks
  | r :: rs => do
    let rule ← r.vocabulary.toRule
    blocksFrom (r.contexts.foldl (fun bs state => addToBlock state (.rule rule) bs) blocks) rs

/-- The entries for each state. -/
def blocks (x : Extension) : Except GrammarError (List (String × List Entry)) :=
  blocksFrom [] x.rules

/-- Prepends blocks one after the other.  The definition keeps what was prepended before the first
block whose state is not declared. -/
def prependBlocks (d : Definition) :
    List (String × List Entry) → Logged (Definition × Except GrammarError Unit)
  | [] => pure (d, .ok ())
  | (state, entries) :: rest => do
    match ← d.prepend state entries with
    | .ok d => prependBlocks d rest
    | .error e => pure (d, .error e)

/-- Prepends the rules of an extension to a definition. -/
def applyTo (x : Extension) (d : Definition) : Logged (Definition × Except GrammarError Unit) :=
  match x.blocks with
  | .ok blocks => prependBlocks d blocks
  | .error e => pure (d, .error e)

/-- What is known of the extended lexer: aliases stay with the tag. -/
def infoFor (x : Extension) (base : LexerInfo) : LexerInfo :=
  { base with tag := x.tag, aliases := if x.tag = base.tag then base.aliases else [] }

/-- Derives the extended lexer. -/
def extend (x : Extension) (base : Lexer) : Logged (Except ExtensionError Lexer) := do
  if base.info.answersTo x.base then
    let info := x.infoFor base.info
    let (d, outcome) ← x.applyTo (base.definition.rename info.tag)
    match outcome with
    | .error e => pure (.error (.grammar e))
    | .ok () =>
      match ← Lexer.ofDefinition info d with
      | .error e => pure (.error (.grammar e))
      | .ok lexer =>
        Logged.report <| .success .extensionApplied "Extension applied"
          [("base", base.tag), ("tag", lexer.tag), ("rules", toString x.rules.length)]
        pure (.ok lexer)
  else
    let e := ExtensionError.unknownBase x.base
    Logged.report <| .error e.code "Extension applied to the wrong base lexer"
      [("expected", x.base), ("found", base.tag)]
    pure (.error e)

end Extension

end Highlighting
