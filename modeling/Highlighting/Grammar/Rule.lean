import Highlighting.KeywordTable

/-!
# Rules

A rule has a written pattern, an action that says what a match produces, and a transition of the
state stack.  States are referred to by a type of references: by name in a definition, by index
once the definition is compiled.
-/

namespace Highlighting

/-- What happens to the state stack after a match. -/
inductive Transition (σ : Type) where
  | stay
  | push (state : σ)
  | pop
deriving DecidableEq, Inhabited

/-- What one group of a match produces. -/
inductive GroupAction (σ : Type) where
  /-- a token -/
  | token (category : Category)
  /-- the tokens of a scan of the group's text that begins in a state -/
  | scan (state : σ)
  /-- a token whose category is looked up -/
  | keywords (table : KeywordTable)
deriving DecidableEq, Inhabited

/-- What a match produces. -/
inductive Action (σ : Type) where
  /-- one token -/
  | token (category : Category)
  /-- what each group produces; the text between groups is plain -/
  | groups (actions : List (GroupAction σ))
  /-- one token whose category is looked up -/
  | keywords (table : KeywordTable)
deriving DecidableEq, Inhabited

/-- A rule as a definition declares it. -/
structure Rule where
  pattern : String
  action : Action String
  transition : Transition String := .stay
deriving DecidableEq, Inhabited

namespace Transition

/-- The state that is pushed. -/
def states {σ : Type} : Transition σ → List σ
  | push s => [s]
  | stay | pop => []

end Transition

namespace GroupAction

/-- The state that the group's text is scanned in. -/
def states {σ : Type} : GroupAction σ → List σ
  | scan s => [s]
  | token _ | keywords _ => []

end GroupAction

namespace Action

/-- The states that groups are scanned in. -/
def states {σ : Type} : Action σ → List σ
  | groups actions => actions.flatMap GroupAction.states
  | token _ | keywords _ => []

/-- Whether the ranges of the groups are of use. -/
def wantsGroups {σ : Type} : Action σ → Bool
  | groups _ => true
  | token _ | keywords _ => false

end Action

namespace Rule

/-- A rule that makes one token. -/
def token (pattern : String) (category : Category) : Rule := ⟨pattern, .token category, .stay⟩

/-- A rule whose groups make tokens. -/
def groups (pattern : String) (actions : List (GroupAction String)) : Rule :=
  ⟨pattern, .groups actions, .stay⟩

/-- A rule that looks the matched word up. -/
def keywords (pattern : String) (table : KeywordTable) : Rule :=
  ⟨pattern, .keywords table, .stay⟩

/-- The rule with a state to push. -/
def push (r : Rule) (state : String) : Rule := { r with transition := .push state }

/-- The rule with a state to leave. -/
def pop (r : Rule) : Rule := { r with transition := .pop }

/-- The states that the rule refers to: the pushed one, then those of its groups. -/
def states (r : Rule) : List String := r.transition.states ++ r.action.states

end Rule

/-- One entry of a state: a rule, or the name of a state whose rules stand in its place. -/
inductive Entry where
  | rule (r : Rule)
  | splice (state : String)
deriving DecidableEq, Inhabited

end Highlighting
