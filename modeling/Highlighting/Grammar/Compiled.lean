import Highlighting.Grammar.Definition
import Highlighting.Pattern.Match

/-!
# Compiled grammars

`Definition.compile` turns a definition into a grammar: the patterns are read, state names become
indices, and every splice is replaced by the rules it stands for, so that each state has one flat
list of rules.  A definition without a root state fails first; otherwise the first failing entry in
declaration order decides, and only then a circle of splices.

A rule is compiled into two patterns.  At the start of a text it is its own pattern, required to
begin there; elsewhere the text begins with the character before the cursor, which the pattern
skips, so that conditions on the place can see it.
-/

namespace Highlighting

/-- A rule ready to be matched. -/
structure CompiledRule where
  /-- the declared pattern -/
  source : String
  /-- the pattern for the start of a text -/
  atStart : Matcher
  /-- the pattern for a text that begins one character before the cursor -/
  inContext : Matcher
  action : Action Nat
  transition : Transition Nat
deriving DecidableEq, Inhabited

/-- A match of a rule: where it ends, and the ranges of its groups. -/
structure RuleMatch where
  stop : Cursor
  groups : List (Option (Nat × Nat))
deriving DecidableEq, Inhabited

namespace CompiledRule

/-- The written pattern for the start of a text. -/
def startText (pattern : String) : List Char :=
  "\\A(?:".toList ++ pattern.toList ++ ")".toList

/-- The written pattern for a text that begins one character before the cursor. -/
def contextText (pattern : String) : List Char :=
  "\\A(?s:.)(?:".toList ++ pattern.toList ++ ")".toList

/-- The written pattern that matches a whole text. -/
def wholeText (pattern : String) : List Char :=
  "\\A(?:".toList ++ pattern.toList ++ ")\\z".toList

/-- The match of a rule at a cursor; one that consumes nothing does not count. -/
def matchAt? (r : CompiledRule) (c : Cursor) : Option RuleMatch :=
  let found := match c.before with
    | none => r.atStart.find? r.action.wantsGroups c
    | some b => r.inContext.find? r.action.wantsGroups ⟨none, b :: c.ahead, c.offset - b.utf8Size⟩
  match found with
  | some (caps, stop) =>
    if c.offset < stop.offset then
      some ⟨stop, if r.action.wantsGroups then caps.upTo r.atStart.groups else []⟩
    else none
  | none => none

end CompiledRule

/-- Whether a pattern accepts the empty text. -/
def matchesEmpty (pattern : String) : Except PatternError Bool := do
  let whole ← Matcher.parse (CompiledRule.wholeText pattern)
  .ok (whole.isMatch [])

/-- A state with the rules that are tried in it, in order. -/
structure CompiledState where
  name : String
  rules : List CompiledRule
deriving DecidableEq, Inhabited

/-- A grammar ready to scan. -/
structure Grammar where
  name : String
  states : List CompiledState
deriving DecidableEq, Inhabited

namespace Grammar

/-- The names of the states in order. -/
def stateNames (g : Grammar) : List String := g.states.map CompiledState.name

/-- The index of a state. -/
def stateIndex? (g : Grammar) (name : String) : Option Nat :=
  g.states.findIdx? fun s => s.name == name

/-- The index of the state in which scans begin. -/
def root (g : Grammar) : Nat := (g.stateIndex? rootState).getD 0

/-- The rules of a state. -/
def rules (g : Grammar) (state : Nat) : List CompiledRule :=
  match g.states[state]? with
  | some s => s.rules
  | none => []

/-- The name of a state. -/
def stateName? (g : Grammar) (state : Nat) : Option String :=
  g.states[state]?.map CompiledState.name

/-- The declared patterns of a state, in the order in which they are tried. -/
def patterns? (g : Grammar) (state : String) : Option (List String) :=
  (g.states.find? fun s => s.name == state).map fun s => s.rules.map CompiledRule.source

/-- The first rule of a state that matches at a cursor. -/
def firstMatch? (g : Grammar) (state : Nat) (c : Cursor) : Option (CompiledRule × RuleMatch) :=
  (g.rules state).findSome? fun r => (r.matchAt? c).map fun m => (r, m)

end Grammar

namespace Definition

/-! ### References to states -/

/-- The index of a declared state. -/
def index? (d : Definition) (state : String) : Option Nat :=
  d.states.findIdx? fun s => s.1 == state

/-- The index of a state that another refers to. -/
def resolve (d : Definition) (from_ target : String) : Except GrammarError Nat :=
  match d.index? target with
  | some i => .ok i
  | none => .error (.unknownState target from_)

/-- A transition with its state as an index. -/
def resolveTransition (d : Definition) (state : String) :
    Transition String → Except GrammarError (Transition Nat)
  | .stay => .ok .stay
  | .pop => .ok .pop
  | .push target => (d.resolve state target).map .push

/-- A group's action with its state as an index. -/
def resolveGroup (d : Definition) (state : String) :
    GroupAction String → Except GrammarError (GroupAction Nat)
  | .token category => .ok (.token category)
  | .keywords table => .ok (.keywords table)
  | .scan target => (d.resolve state target).map .scan

/-- An action with its states as indices. -/
def resolveAction (d : Definition) (state : String) :
    Action String → Except GrammarError (Action Nat)
  | .token category => .ok (.token category)
  | .keywords table => .ok (.keywords table)
  | .groups actions => (actions.mapM (d.resolveGroup state)).map .groups

/-! ### Entries -/

/-- Reads a pattern of a rule in a state. -/
def readPattern (state pattern : String) (text : List Char) : Except GrammarError Matcher :=
  match Matcher.parse text with
  | .ok matcher => .ok matcher
  | .error cause => .error (.invalidPattern state pattern cause)

/-- Compiles a rule of a state. -/
def compileRule (d : Definition) (state : String) (r : Rule) :
    Except GrammarError CompiledRule := do
  let whole ← readPattern state r.pattern (CompiledRule.wholeText r.pattern)
  if whole.isMatch [] then .error (.zeroWidthPattern state r.pattern)
  else
    let transition ← d.resolveTransition state r.transition
    let action ← d.resolveAction state r.action
    let start ← readPattern state r.pattern (CompiledRule.startText r.pattern)
    let context ← readPattern state r.pattern (CompiledRule.contextText r.pattern)
    .ok ⟨r.pattern, start, context, action, transition⟩

/-- An entry of a state after compilation. -/
inductive Slot where
  | rule (r : CompiledRule)
  | splice (state : Nat)
deriving DecidableEq, Inhabited

/-- Compiles an entry of a state. -/
def compileEntry (d : Definition) (state : String) : Entry → Except GrammarError Slot
  | .rule r => (d.compileRule state r).map .rule
  | .splice target => (d.resolve state target).map .splice

/-- Compiles the entries of all states, in declaration order. -/
def compileEntries (d : Definition) : Except GrammarError (List (List Slot)) :=
  d.states.mapM fun (state, entries) => entries.mapM (d.compileEntry state)

/-! ### Splices -/

/-- The rules of the states that are already expanded, by the index of the state. -/
abbrev Expanded := Array (Option (List CompiledRule))

/-- The rules of a list of entries after those found so far, which come latest first, given a way
to expand a state. -/
def spliceAll (rulesOf : Nat → Expanded → Except (List Nat) (List CompiledRule × Expanded)) :
    List Slot → List CompiledRule → Expanded → Except (List Nat) (List CompiledRule × Expanded)
  | [], found, known => .ok (found.reverse, known)
  | .rule r :: rest, found, known => spliceAll rulesOf rest (r :: found) known
  | .splice target :: rest, found, known =>
    match rulesOf target known with
    | .ok (rules, known) => spliceAll rulesOf rest (rules.reverse ++ found) known
    | .error path => .error path

/-- The rules of a state, or a circle of splices.  The states in which it is being expanded come
latest first; they are distinct, so that there are at most as many as there are states, which the
first number counts.  Each state is expanded once. -/
def expandWithin (slots : List (List Slot)) :
    Nat → List Nat → Nat → Expanded → Except (List Nat) (List CompiledRule × Expanded)
  | 0, visiting, state, _ => .error (state :: visiting).reverse
  | n + 1, visiting, state, known =>
    match known.getD state none with
    | some rules => .ok (rules, known)
    | none =>
      if visiting.contains state then
        .error (state :: (visiting.takeWhile (· != state) ++ [state])).reverse
      else
        let rulesOf := expandWithin slots n (state :: visiting)
        match spliceAll rulesOf (slots.getD state []) [] known with
        | .ok (rules, known) => .ok (rules, known.setIfInBounds state (some rules))
        | .error path => .error path

/-- The rules of the states of a list in order, or a circle of splices. -/
def expandAll (slots : List (List Slot)) :
    List Nat → Expanded → Except (List Nat) (List (List CompiledRule))
  | [], _ => .ok []
  | state :: more, known => do
    let (rules, known) ← expandWithin slots (slots.length + 1) [] state known
    let rest ← expandAll slots more known
    .ok (rules :: rest)

/-- The rules of all states in order, or a circle of splices. -/
def expand (slots : List (List Slot)) : Except (List Nat) (List (List CompiledRule)) :=
  expandAll slots (List.range slots.length) (Array.replicate slots.length none)

/-- The name of a state. -/
def stateName (d : Definition) (state : Nat) : String := d.stateNames.getD state ""

/-- The rules of all states, a circle being named by its states. -/
def flatten (d : Definition) (slots : List (List Slot)) :
    Except GrammarError (List (List CompiledRule)) :=
  match expand slots with
  | .ok rules => .ok rules
  | .error path => .error (.includeCycle (path.map d.stateName))

/-- Compiles a definition. -/
def compile (d : Definition) : Except GrammarError Grammar :=
  if d.hasState rootState then do
    let slots ← d.compileEntries
    let rules ← d.flatten slots
    .ok ⟨d.name, d.stateNames.zipWith CompiledState.mk rules⟩
  else .error (.missingRootState d.name)

/-- Compiles a definition and reports the outcome. -/
def build (d : Definition) : Logged (Except GrammarError Grammar) :=
  match d.compile with
  | .ok g =>
    let rules := (g.states.flatMap fun s => s.rules).length
    ⟨.ok g, [.success .grammarCompiled "Grammar compiled"
      [("grammar", d.name), ("states", toString g.states.length), ("rules", toString rules)]]⟩
  | .error e => ⟨.error e, [.error e.code e.message [("grammar", d.name)]]⟩

end Definition

end Highlighting
