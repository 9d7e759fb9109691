import Highlighting.Category
import Highlighting.Log.Code
import Highlighting.Pattern.Lexeme

/-!
# Errors of grammars

Why a definition is not a grammar, and why a vocabulary is not a rule.
-/

namespace Highlighting

/-- The name of the state in which every scan begins. -/
def rootState : String := "root"

/-- Why a grammar cannot be built. -/
inductive GrammarError where
  /-- a rule's text is not a pattern -/
  | invalidPattern (state pattern : String) (cause : PatternError)
  /-- a rule's pattern matches the empty text -/
  | zeroWidthPattern (state pattern : String)
  /-- a state is referred to and not declared -/
  | unknownState (state referencedFrom : String)
  /-- states stand in one another's place in a circle -/
  | includeCycle (path : List String)
  /-- a vocabulary has no words -/
  | emptyVocabulary (category : Category)
  /-- there is no root state -/
  | missingRootState (grammar : String)
  /-- a vocabulary has too many words -/
  | vocabularyTooLarge (words limit : Nat)
  /-- a vocabulary's pattern is too long -/
  | patternTooLong (length limit : Nat)
deriving DecidableEq, Inhabited

namespace GrammarError

/-- The error in words. -/
def message : GrammarError → String
  | invalidPattern state pattern .tooLarge =>
    s!"Invalid pattern in state '{state}': {pattern}: {PatternError.tooLarge.message}"
  | invalidPattern state pattern cause =>
    s!"Invalid pattern in state '{state}': {pattern}: pattern error:\n    {pattern}\n" ++
      s!"error: {cause.message}"
  | zeroWidthPattern state pattern =>
    s!"Pattern in state '{state}' can match empty input: {pattern}"
  | unknownState state referencedFrom =>
    s!"Unknown state '{state}' referenced from '{referencedFrom}'"
  | includeCycle path => "State include cycle: " ++ " -> ".intercalate path
  | emptyVocabulary category => s!"Vocabulary for {category.qualifiedName} has no words"
  | missingRootState grammar => s!"Grammar '{grammar}' has no '{rootState}' state"
  | vocabularyTooLarge words limit => s!"Vocabulary has {words} words, limit is {limit}"
  | patternTooLong length limit => s!"Pattern is {length} bytes, limit is {limit}"

/-- The code under which the error is logged. -/
def code : GrammarError → Code
  | invalidPattern .. => .invalidPattern
  | zeroWidthPattern .. => .zeroWidthPattern
  | unknownState .. => .unknownState
  | includeCycle .. => .includeCycle
  | emptyVocabulary .. => .emptyVocabulary
  | missingRootState .. => .missingRootState
  | vocabularyTooLarge .. => .vocabularyTooLarge
  | patternTooLong .. => .vocabularyTooLarge

end GrammarError

end Highlighting
