import Highlighting.Lexer.Basic

/-!
# Plain text

The lexer to fall back on: a source is one token of plain text.
-/

namespace Highlighting

namespace PlainText

/-- The tag of plain text. -/
def tag : String := "plaintext"

/-- What is known of the lexer. -/
def info : LexerInfo where
  tag := tag
  title := "Plain Text"
  description := "A boring lexer that doesn't highlight anything"
  aliases := ["text", "plain"]
  filenames := ["*.txt"]
  mimetypes := ["text/plain"]

/-- The grammar, with one rule that takes everything. -/
def grammar : Definition := ⟨tag, [(rootState, [.rule (.token "(?s:.)+" .text)])]⟩

/-- The lexer. -/
def lexer : Logged (Except GrammarError Lexer) := Lexer.ofDefinition info grammar

end PlainText

end Highlighting
