import Highlighting.Pattern.CharSet

/-!
# Patterns

Regular expressions as trees in a normal form.  A choice prefers its first branch, a greedy
repetition prefers to go on and a lazy one prefers to stop; what a pattern matches is decided by
these preferences, not by length.

`Pattern.sequence`, `Pattern.choice` and `Pattern.rounds` build patterns and keep the normal form:
a sequence has no empty part and no two literals side by side, a choice between single characters
is a set, a choice whose branches begin alike is the common beginning followed by a choice, and a
part that consumes nothing is not repeated.
-/

namespace Highlighting

/-- A condition on a place in a text. -/
inductive Look where
  /-- the place is the start of the text -/
  | textStart
  /-- the place is the end of the text -/
  | textEnd
  /-- the place follows a line feed or is the start of the text -/
  | lineStart
  /-- the place precedes a line feed or is the end of the text -/
  | lineEnd
  /-- exactly one side of the place is a word character -/
  | wordBoundary
  /-- both sides of the place are word characters or neither is -/
  | noWordBoundary
deriving DecidableEq, Inhabited

namespace Look

/-- Whether the condition asks about the character after the place. -/
def looksAhead : Look → Bool
  | textStart | lineStart => false
  | textEnd | lineEnd | wordBoundary | noWordBoundary => true

/-- Whether the condition asks about word characters. -/
def asksForWords : Look → Bool
  | wordBoundary | noWordBoundary => true
  | textStart | textEnd | lineStart | lineEnd => false

end Look

/-- A regular expression. -/
inductive Pattern where
  /-- the empty text -/
  | empty
  /-- one or more characters, each standing for itself -/
  | literal (cs : List Char)
  /-- one character of a set -/
  | one (s : CharSet)
  /-- a condition that consumes nothing -/
  | look (l : Look)
  /-- the first pattern and then the second -/
  | seq (p q : Pattern)
  /-- the first pattern or else the second -/
  | alt (p q : Pattern)
  /-- at least `min` and at most `max` rounds, without bound when there is no `max` -/
  | repeated (p : Pattern) (min : Nat) (max : Option Nat) (greedy : Bool)
  /-- a pattern whose range is recorded under a number -/
  | group (index : Nat) (p : Pattern)
deriving DecidableEq, Inhabited

namespace Pattern

/-! ### What a pattern consumes -/

/-- Whether every match is empty. -/
def consumesNothing : Pattern → Bool
  | empty | look _ => true
  | literal _ | one _ => false
  | seq p q | alt p q => p.consumesNothing && q.consumesNothing
  | repeated p _ max _ => max.isSome && p.consumesNothing
  | group _ p => p.consumesNothing

/-- The least number of characters that a match consumes, unless some part can never match. -/
def shortest? : Pattern → Option Nat
  | empty | look _ => some 0
  | literal cs => some cs.length
  | one s => if s.isEmpty then none else some 1
  | seq p q =>
    match p.shortest?, q.shortest? with
    | some m, some n => some (m + n)
    | _, _ => none
  | alt p q =>
    match p.shortest?, q.shortest? with
    | some m, some n => some (min m n)
    | _, _ => none
  | repeated p min _ _ => p.shortest?.map (min * ·)
  | group _ p => p.shortest?

/-- Whether a match is known to consume something. -/
def advances (p : Pattern) : Bool :=
  match p.shortest? with
  | some n => 0 < n
  | none => false

/-! ### Building patterns -/

/-- One character of a set, as a literal when the set has no other. -/
def ofSet (s : CharSet) : Pattern :=
  match s.only? with
  | some c => .literal [c]
  | none => .one s

/-- The parts of a sequence. -/
def parts : Pattern → List Pattern
  | empty => []
  | seq p q => p :: q.parts
  | p => [p]

/-- The branches of a choice. -/
def branches : Pattern → List Pattern
  | alt p q => p :: q.branches
  | p => [p]

/-- A list of parts with one more in front, a literal being joined to the literal after it. -/
def consPart (p : Pattern) (ps : List Pattern) : List Pattern :=
  match p, ps with
  | .literal a, .literal b :: rest => .literal (a ++ b) :: rest
  | p, ps => p :: ps

/-- The sequence with given parts. -/
def ofParts : List Pattern → Pattern
  | [] => .empty
  | [p] => p
  | p :: q :: ps => .seq p (ofParts (q :: ps))

/-- The choice with given branches. -/
def ofBranches : List Pattern → Pattern
  | [] => .one .empty
  | [p] => p
  | p :: q :: ps => .alt p (ofBranches (q :: ps))

/-- The sequence of a list of patterns. -/
def sequence (ps : List Pattern) : Pattern := ofParts ((ps.flatMap parts).foldr consPart [])

/-- The set of a pattern for a single character. -/
def asSet? : Pattern → Option CharSet
  | literal [c] => some (.single c)
  | one s => some s
  | _ => none

/-- The choice between branches that do not begin alike. -/
def plainChoice (branches : List Pattern) : Pattern :=
  match branches, branches.mapM asSet? with
  | [p], _ => p
  | _, some sets => ofSet (.ofRanges (sets.flatMap CharSet.ranges))
  | _, none => ofBranches branches

/-- What two lists have in common at their beginning. -/
def commonStart : List Pattern → List Pattern → List Pattern
  | p :: ps, q :: qs => if p = q then p :: commonStart ps qs else []
  | _, _ => []

/-- What a list of sequences have in common at their beginning; nothing as soon as one of them is
no sequence. -/
def sharedStart : List Pattern → List Pattern
  | [] => []
  | [p] => match p with
    | .seq .. => p.parts
    | _ => []
  | p :: q :: ps => match p with
    | .seq .. => commonStart p.parts (sharedStart (q :: ps))
    | _ => []

/-- The choice between the patterns of a list, an earlier one being preferred to a later one. -/
def choice (ps : List Pattern) : Pattern :=
  let bs := ps.flatMap branches
  match bs with
  | [p] => p
  | _ =>
    match (sharedStart bs).length with
    | 0 => plainChoice bs
    | n + 1 =>
      let rests := bs.map fun p => ofParts (p.parts.drop (n + 1))
      sequence (sharedStart bs ++ [plainChoice (rests.flatMap branches)])

/-- At least `min` and at most `max` rounds, without bound when there is no `max`.  A pattern that
consumes nothing is not repeated. -/
def rounds (p : Pattern) (min : Nat) (max : Option Nat) (greedy : Bool) : Pattern :=
  let once := p.consumesNothing
  let least := if once then Nat.min min 1 else min
  let most := if once then some (match max with
    | some m => Nat.min m 1
    | none => 1) else max
  if most = some 0 then .empty
  else if least = 1 && most = some 1 then p
  else .repeated p least most greedy

/-! ### Properties -/

/-- Whether every match begins with a condition. -/
def asksFirst (l : Look) : Pattern → Bool
  | .look m => m = l
  | .seq p q => p.asksFirst l || p.consumesNothing && q.asksFirst l
  | .alt p q => p.asksFirst l && q.asksFirst l
  | .repeated p min _ _ => min != 0 && p.asksFirst l
  | .group _ p => p.asksFirst l
  | .empty | .literal _ | .one _ => false

/-- Whether every match ends with a condition. -/
def asksLast (l : Look) : Pattern → Bool
  | .look m => m = l
  | .seq p q => q.asksLast l || q.consumesNothing && p.asksLast l
  | .alt p q => p.asksLast l && q.asksLast l
  | .repeated p min _ _ => min != 0 && p.asksLast l
  | .group _ p => p.asksLast l
  | .empty | .literal _ | .one _ => false

/-- Whether some condition in the pattern has a property. -/
def anyLook (holds : Look → Bool) : Pattern → Bool
  | .look l => holds l
  | .seq p q | .alt p q => p.anyLook holds || q.anyLook holds
  | .repeated p _ _ _ | .group _ p => p.anyLook holds
  | .empty | .literal _ | .one _ => false

/-- Whether some round of an unbounded repetition may consume nothing and yet has a condition on
the character ahead. -/
def hasIdleLook : Pattern → Bool
  | .repeated p _ max _ =>
    (max.isNone && !p.advances && p.anyLook Look.looksAhead) || p.hasIdleLook
  | .seq p q | .alt p q => p.hasIdleLook || q.hasIdleLook
  | .group _ p => p.hasIdleLook
  | .empty | .literal _ | .one _ | .look _ => false

theorem parts_empty : empty.parts = [] := rfl

theorem sequence_nil : sequence [] = .empty := rfl

theorem rounds_one (p : Pattern) (greedy : Bool) : p.rounds 1 (some 1) greedy = p := by
  simp [rounds]

end Pattern

end Highlighting
