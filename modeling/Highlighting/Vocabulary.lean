import Highlighting.Grammar.Error
import Highlighting.Grammar.Rule
import Highlighting.Pattern.Reader
import Highlighting.Settings.Limits

/-!
# Vocabularies

A vocabulary is a list of words of one category.  As a rule it matches exactly its words, and only
where they are not part of a longer word.
-/

namespace Highlighting

/-- Words of one category. -/
structure Vocabulary where
  category : Category
  words : List String
deriving DecidableEq, Inhabited

namespace Vocabulary

/-- Whether a word is listed. -/
def contains (v : Vocabulary) (word : String) : Bool := v.words.contains word

/-- The written pattern: a choice between the words with a word boundary on both sides. -/
def pattern (v : Vocabulary) : String :=
  "\\b(?:" ++ "|".intercalate (v.words.map Pattern.escape) ++ ")\\b"

/-- The rule of a vocabulary, which needs words, all of them not empty, within the limits. -/
def toRule (v : Vocabulary) : Except GrammarError Rule :=
  let pattern := v.pattern
  if v.words.all String.isEmpty then .error (.emptyVocabulary v.category)
  else if v.words.any String.isEmpty then .error (.zeroWidthPattern "" pattern)
  else if v.words.length > Limits.maxVocabularyWords then
    .error (.vocabularyTooLarge v.words.length Limits.maxVocabularyWords)
  else if pattern.utf8ByteSize > Limits.maxPatternLength then
    .error (.patternTooLong pattern.utf8ByteSize Limits.maxPatternLength)
  else .ok (.token pattern v.category)

end Vocabulary

end Highlighting
