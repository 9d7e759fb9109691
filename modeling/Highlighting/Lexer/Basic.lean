import Highlighting.Lexer.Info
import Highlighting.Scan.Tokenize

/-!
# Lexers

A lexer is a compiled grammar together with the definition it comes from and what is known of it.
Further lexers are derived from the definition, which leaves the lexer itself as it is.
-/

namespace Highlighting

/-- A named lexer. -/
structure Lexer where
  info : LexerInfo
  definition : Definition
  grammar : Grammar
deriving DecidableEq, Inhabited

namespace Lexer

/-- The lexer of a definition. -/
def ofDefinition (info : LexerInfo) (d : Definition) : Logged (Except GrammarError Lexer) := do
  match ← d.build with
  | .ok g => pure (.ok ⟨info, d, g⟩)
  | .error e => pure (.error e)

/-- The tag of the lexer. -/
def tag (l : Lexer) : String := l.info.tag

/-- Tokenizes a source under the default preferences. -/
def tokenize (l : Lexer) (source : String) : Logged TokenStream :=
  let result := l.grammar.tokenize {} source
  ⟨result.value.tokens, result.events⟩

end Lexer

end Highlighting
