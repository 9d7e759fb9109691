import Mathlib.Data.List.Find
import Highlighting.Proofs.Language.DeclaredNames
import Highlighting.Proofs.Language.Identifiers
import Highlighting.Proofs.Scan.KeptTokens
import Highlighting.Proofs.Scan.RuleShape

/-!
# Tokens that are listed words

In the states of the C family an extension decides the category of its words.  A token that is one
of the words has the category of the first vocabulary that lists it, unless it is in a comment or a
literal, follows a word character, or is the name of a declaration (`Extension.Extends.yields`).

A rule *spares* words when no part of its matches can be one of them but in a quiet category or as
a declared name.  That is computed from the routes of its groups; the rules that do not spare words
are those of the extension and that of identifiers, which take whole words only, and where a whole
word is ahead the extension is tried first.
-/

namespace Highlighting

/-- The categories of comments and literals. -/
def Category.isQuiet (category : Category) : Bool :=
  category.isWithin .comment || category.isWithin .literal

/-- Whether all rules of an extension go into a state. -/
def Extension.goesInto (x : Extension) (state : String) : Bool :=
  x.rules.all (·.contexts.contains state)

namespace CompiledRule

/-- Whether a group among others cannot be one of some words, but in a quiet category or as a
declared name. -/
def groupSpares (words : List String) (before : List (GroupAction Nat × Route))
    (g : GroupAction Nat × Route) (behind : List (GroupAction Nat × Route)) : Bool :=
  words.all fun w => (g.1.category? w).all fun category =>
    category.isQuiet || !g.2.mayRead w.toList ||
      CFamily.heralds category (before.map Prod.snd) (behind.map Prod.snd)

/-- Whether no part of a match can be one of some words, but in a quiet category or as a declared
name. -/
def spares (words : List String) (r : CompiledRule) : Bool :=
  match r.action with
  | .token category =>
    category.isQuiet || r.body?.any fun p => words.all fun w => !p.mayRead w.toList
  | .keywords _ => false
  | .groups actions => r.groupRoutes?.any fun qs =>
    actions.length == qs.length && allAmong (groupSpares words) [] (actions.zip qs)

end CompiledRule

section Source

variable {source u v w : List Char} {c d y e : Cursor} {t : RawToken}

theorem RawToken.Spells.unique (h : t.Spells source v) (h' : t.Spells source w) : v = w := by
  have htext := h.resolve_eq.1.symm.trans h'.resolve_eq.1
  exact String.ofList_injective htext

/-- Behind no word character of the source there is no word character before a place. -/
theorem Cursor.StandsIn.starts (h : c.StandsIn source)
    (hword : (takeBytes c.offset source).getLast?.any isWordChar = false) :
    isWordSide c.before = false := by
  cases hb : c.before with
  | none => rfl
  | some b =>
    rw [h.before b hb] at hword
    exact hword

end Source

namespace Extension

variable {x : Extension} {source w : List Char} {v : Vocabulary}

end Extension

namespace CompiledRule

variable {x : Extension} {r : CompiledRule} {c : Cursor} {m : RuleMatch} {source : List Char}
  {inner : Nat → Prop}

end CompiledRule

namespace Grammar

/-- Whether some states are left for others of them, and groups are scanned anew from inner states
only. -/
def stays (g : Grammar) (allowed inner : List Nat) : Bool :=
  allowed.all fun state => (g.rules state).all fun r =>
    r.transition.states.all allowed.contains && r.action.states.all inner.contains

/-- Whether the rules of a state spare the words of an extension, or take identifiers where all of
the extension goes, and words of one character are surely taken. -/
def sparesWords (g : Grammar) (x : Extension) (state : Nat) : Bool :=
  ((g.rules state).all fun r =>
    r.spares x.words || (r.isIdentifier && (g.stateName? state).any x.goesInto)) &&
  x.words.all fun w =>
    match w.toList with
    | [ch] => (g.rules state).any (·.surelyTakes ch)
    | _ => true

variable {g : Grammar} {x : Extension} {state : Nat} {r : CompiledRule}

end Grammar

namespace Extension

variable {x : Extension} {g g' : Grammar} {state : Nat} {c : Cursor} {r : CompiledRule}
  {m : RuleMatch} {source : List Char}

end Extension

end Highlighting
