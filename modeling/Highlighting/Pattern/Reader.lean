import Highlighting.Pattern.Lexeme
import Highlighting.Pattern.Weight

/-!
# Reading patterns

`Pattern.parse` builds a pattern from its written form.  The lexemes are taken in order: each open
group is a frame that holds its finished branches and the parts of the branch that is being read,
and a closing parenthesis turns the frame into one part of the frame around it.  Flags last to the
end of the group that sets them, across its bars.

Groups are numbered by their opening parentheses, from 1.
-/

namespace Highlighting

namespace Pattern

/-- An open group. -/
structure Frame where
  /-- its number, unless it only groups -/
  index : Option Nat
  /-- the flags in force before it -/
  outerFlags : PatternFlags
  /-- its finished branches, the latest first -/
  branches : List (Nested Pattern)
  /-- the parts of the branch that is being read, the latest first; a change of flags is a part
  that nothing can repeat -/
  parts : List (Option (Nested Pattern))

namespace Frame

/-- A group with nothing in it. -/
def opened (index : Option Nat) (flags : PatternFlags) : Frame := ⟨index, flags, [], []⟩

/-- The branch that is being read. -/
def branch (f : Frame) : Nested Pattern :=
  let depths := f.parts.map fun part => (part.map (·.depth)).getD 0
  ⟨sequence (f.parts.reverse.filterMap fun part => part.map (·.value)), Nested.joinedDepth depths⟩

/-- The choice between the branches. -/
def pattern (f : Frame) : Nested Pattern :=
  let branches := (f.branch :: f.branches).reverse
  ⟨choice (branches.map (·.value)), Nested.joinedDepth (branches.map (·.depth))⟩

/-- The group as a part of another. -/
def closed (f : Frame) : Nested Pattern :=
  let p := f.pattern
  ⟨match f.index with
    | some i => .group i p.value
    | none => p.value, p.depth + 1⟩

/-- The frame with one more part. -/
def add (f : Frame) (p : Nested Pattern) : Frame := { f with parts := some p :: f.parts }

end Frame

/-- A pattern that is partly read: the innermost group, the groups around it, the flags in force,
the number of numbered groups and their names. -/
structure Partial where
  frame : Frame
  outer : List Frame
  flags : PatternFlags
  groups : Nat
  names : List (List Char)

namespace Partial

/-- Nothing read yet. -/
def start : Partial := ⟨.opened none {}, [], {}, 0, []⟩

/-- Adds a part to the branch that is being read. -/
def add (r : Partial) (p : Nested Pattern) : Partial := { r with frame := r.frame.add p }

/-- Adds a part that is not made of parts. -/
def addLeaf (r : Partial) (p : Pattern) : Partial := r.add (.leaf p)

/-- Opens a group. -/
def enter (r : Partial) (index : Option Nat) : Partial :=
  { r with frame := .opened index r.flags, outer := r.frame :: r.outer }

end Partial

/-- Sequences, choices, repetitions, groups and classes may be nested this deeply. -/
def maxDepth : Nat := 250

/-- The condition that `^` stands for. -/
def caretLook (flags : PatternFlags) : Look := if flags.multiLine then .lineStart else .textStart

/-- The condition that `$` stands for. -/
def dollarLook (flags : PatternFlags) : Look := if flags.multiLine then .lineEnd else .textEnd

/-- Takes one lexeme into a partly read pattern. -/
def step (r : Partial) : Lexeme → Except PatternError Partial
  | .set s => .ok (r.add ⟨ofSet (s.value.set r.flags.ignoreCase), s.depth⟩)
  | .dot => .ok (r.addLeaf (.one (if r.flags.dotAll then .all else .notNewline)))
  | .caret => .ok (r.addLeaf (.look (caretLook r.flags)))
  | .dollar => .ok (r.addLeaf (.look (dollarLook r.flags)))
  | .look l => .ok (r.addLeaf (.look l))
  | .repeated min max isLazy =>
    match r.frame.parts with
    | some p :: parts =>
      let q := ⟨p.value.rounds min max (isLazy == r.flags.swapGreed), p.depth + 1⟩
      .ok { r with frame := { r.frame with parts := some q :: parts } }
    | _ => .error .nothingToRepeat
  | .bar =>
    .ok { r with frame := { r.frame with
      branches := r.frame.branch :: r.frame.branches, parts := [] } }
  | .openGroup name =>
    match name with
    | some n =>
      if r.names.contains n then .error .badGroupName
      else .ok { r.enter (some (r.groups + 1)) with groups := r.groups + 1, names := n :: r.names }
    | none => .ok { r.enter (some (r.groups + 1)) with groups := r.groups + 1 }
  | .openPlain change => .ok { r.enter none with flags := change r.flags }
  | .flags change =>
    .ok { r with flags := change r.flags, frame := { r.frame with parts := none :: r.frame.parts } }
  | .close =>
    match r.outer with
    | [] => .error .unopenedGroup
    | f :: outer =>
      .ok { r with frame := f.add r.frame.closed, outer, flags := r.frame.outerFlags }

/-- A pattern with the number of its numbered groups. -/
structure Read where
  pattern : Pattern
  groups : Nat
deriving DecidableEq, Inhabited

/-- The pattern of a list of lexemes. -/
def ofLexemes (ls : List Lexeme) : Except PatternError Read := do
  let r ← ls.foldlM step Partial.start
  match r.outer with
  | [] =>
    let p := r.frame.pattern
    if p.depth > maxDepth then .error .tooDeep
    else if p.value.fits then .ok ⟨p.value, r.groups⟩
    else .error .tooLarge
  | _ :: _ => .error .unclosedGroup

/-- Reads a written pattern. -/
def parse (text : List Char) : Except PatternError Read := do
  ofLexemes (← lexemes text)

/-- The written form of a pattern that matches exactly a given text. -/
def escape (text : String) : String :=
  String.ofList (text.toList.flatMap fun c => if isMark c then ['\\', c] else [c])

end Pattern

end Highlighting
