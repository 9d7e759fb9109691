import Highlighting.Language.EngineVocabulary
import Highlighting.Proofs.Grammar.Evaluation
import Highlighting.Proofs.Grammar.References
import Highlighting.Proofs.Language.Directives
import Highlighting.Proofs.Language.StateStacks

/-!
# The rules of disabled blocks

In a disabled block every rule makes a comment of some characters of one line
(`CFamily.BlockRules`), and what happens to the state stack is decided by the directive at the start
of the line: a rule for a directive matches there exactly if the line is that directive, because the
search for a match misses none that the route of the rule leads to.

All this is computed of the patterns alone (`bareRule?`), so it holds of every grammar that a
definition of the family is compiled into, whatever vocabularies stand in front of the rules of its
other states (`CFamily.IsLexer.disablesBlocks`).
-/

namespace Highlighting

section Bare

variable {index : String → Option Nat} {rule : Rule} {r b : CompiledRule}

end Bare

namespace CFamily

/-- The categories of what is disabled. -/
def hiddenCategories : List Category := [.comment, .commentPreproc]

/-- A rule makes a comment of some characters of one line. -/
structure IsQuiet (r : CompiledRule) : Prop where
  action : ∃ category ∈ hiddenCategories, r.action = .token category
  body : r.body?.any Route.staysInLine = true

/-- The directive at a place at the start of a line. -/
def directiveAt? (c : Cursor) : Option Directive :=
  if Look.lineStart.holds c then directive? c.ahead else none

/-- What a directive does to the state stack of a block. -/
def transitionOf (block : Nat) : Option Directive → Transition Nat
  | none => .stay
  | some .opens => .push block
  | some .turns | some .closes => .pop

/-- What is known of the rules of disabled blocks. -/
structure BlockRules (g : Grammar) (block : Nat) : Prop where
  quiet : ∀ r ∈ g.rules block, IsQuiet r
  /-- no character is left unmatched -/
  matched : ∀ c : Cursor, c.Placed → c.ahead ≠ [] → g.firstMatch? block c ≠ none
  /-- the directive decides what happens to the state stack -/
  transition : ∀ c r m, c.Placed → g.firstMatch? block c = some (r, m) →
    r.transition = transitionOf block (directiveAt? c)

/-! ### Rules for directives -/

/-- Whether a rule is found wherever a directive stands at the start of a line, and nowhere else. -/
def finds (d : Directive) (r : CompiledRule) : Bool :=
  r.isComplete && r.body?.any fun p => p.readsDirective d.words && !p.skips

section Finders

variable {r : CompiledRule} {m : RuleMatch} {d : Directive} {c : Cursor}

end Finders

/-! ### The rules of a block -/

section Rules

variable {index : String → Option Nat} {rule : Rule} {r : CompiledRule}

end Rules

/-! ### Grammars with disabled blocks -/

/-- What is known of a grammar with disabled blocks. -/
structure DisablesBlocks (g : Grammar) : Prop where
  block : ∀ state, g.stateName? state = some "if_0" → BlockRules g state
  /-- whatever opens a block reads the beginning of a conditional -/
  opening : ∀ state, ∀ r ∈ g.rules state, ∀ block, r.transition = .push block →
    g.stateName? block = some "if_0" → IsQuiet r ∧ r.body?.any readsConditional = true

section Compiled

variable {g : Grammar} {d : Definition} {rules : List ExtensionRule} {name : String}
  {dialect : Dialect}

end Compiled

/-- The lexers of C, of C++ and of C++ with the vocabulary of an engine. -/
inductive IsLexer (l : Lexer) : Prop where
  | c (h : cLexer.value = .ok l)
  | cpp (h : cppLexer.value = .ok l)
  | engine (h : EngineVocabulary.lexer.value = .ok l)

end CFamily

end Highlighting
