import Highlighting.Pattern.Basic
import Highlighting.Settings.Limits
import Highlighting.Text.Bytes
import Std.Data.HashMap

/-!
# The weight of a pattern

A pattern is refused when its automaton takes too much memory.  The automaton reads the bytes of
UTF-8, and there are two of them, one for each direction of reading.  A state takes 32 bytes; an
arrow of a state with several of them takes 8 bytes more, and a way out of a state that branches
without reading takes 4 more.

`Pattern.build?` counts the states of one automaton, and gives up as soon as they weigh too much.
Sets of characters are what makes the count intricate: a set becomes a net of states that share
their ends, and what is shared is looked up in a table with a fixed number of places, where a
newcomer displaces what was there.
-/

namespace Highlighting

/-- The states of an automaton so far, and the bytes that they take beyond their fixed size. -/
structure Tally where
  states : Nat
  extra : Nat
deriving DecidableEq, Inhabited

namespace Tally

/-- The bytes that the states take. -/
def weight (t : Tally) : Nat := 32 * t.states + t.extra

/-- The tally with more states, unless it becomes too heavy. -/
def add? (states extra : Nat) (t : Tally) : Option Tally :=
  let sum : Tally := ⟨t.states + states, t.extra + extra⟩
  if sum.weight ≤ Limits.maxPatternWeight then some sum else none

/-- The tally with one more state that branches without reading. -/
def fork? (ways : Nat) (t : Tally) : Option Tally := t.add? 1 (4 * ways)

/-- A number of rounds of additions. -/
def times? (round : Tally → Option Tally) : Nat → Tally → Option Tally
  | 0, t => some t
  | n + 1, t =>
    match round t with
    | some more => times? round n more
    | none => none

theorem weight_add? {states extra : Nat} {t sum : Tally} (h : t.add? states extra = some sum) :
    sum.weight ≤ Limits.maxPatternWeight := by
  simp only [add?] at h
  split at h
  · cases h
    assumption
  · cases h

end Tally

/-! ### Ranges of bytes -/

/-- A range of bytes. -/
abbrev ByteRange := Nat × Nat

namespace CharSet

/-- The code points that take one byte, two, three (in two parts) and four. -/
def byteLengths : Intervals :=
  [(0, 0x7f), (0x80, 0x7ff), (0x800, 0xd7ff), (0xe000, 0xffff), (0x10000, lastPoint)]

/-- Cuts a range of numbers so that each piece lies in one block of a size or is made of whole
blocks. -/
def cutAtBlocks (size : Nat) (r : Nat × Nat) : Intervals :=
  let (lo, hi) := r
  if lo / size = hi / size then [r]
  else
    let start := (lo + size - 1) / size * size
    let head := if lo = start then [] else [(lo, start - 1)]
    if start / size = hi / size || hi % size = size - 1 then head ++ [(start, hi)]
    else head ++ [(start, hi / size * size - 1), (hi / size * size, hi)]

/-- The bytes of a code point. -/
def bytesOf (n : Nat) : List Nat := (String.utf8EncodeChar (Char.ofNat n)).map UInt8.toNat

/-- The characters of a range as sequences of byte ranges. -/
def byteSequences (r : Nat × Nat) : List (List ByteRange) :=
  (overlaps [r] byteLengths).flatMap fun piece =>
    if piece.2 ≤ 0x7f then [[piece]]
    else
      let pieces := (cutAtBlocks 64 piece).flatMap fun p =>
        (cutAtBlocks 4096 p).flatMap (cutAtBlocks 262144)
      pieces.map fun (lo, hi) => (bytesOf lo).zip (bytesOf hi)

/-- Whether a set holds ASCII characters only. -/
def isAscii (s : CharSet) : Bool := s.ranges.all fun r => r.2 ≤ 0x7f

end CharSet

/-- The place of a list of numbers in a table. -/
def tablePlace (places : Nat) (ns : List Nat) : Nat :=
  let mixed := ns.foldl (fun (h : UInt64) n => (h ^^^ n.toUInt64) * 1099511628211)
    14695981039346656037
  mixed.toNat % places

/-- States that may be shared: at each place of a table the description of the state that was
last entered there, and its number. -/
structure SharedStates where
  tally : Tally
  places : Nat
  entries : Std.HashMap Nat (List Nat × Nat) := ∅

namespace SharedStates

/-- The number of the state with a description, which is added unless the table knows it. -/
def state? (s : SharedStates) (description : List Nat) (extra : Nat) :
    Option (Nat × SharedStates) :=
  let place := tablePlace s.places description
  match s.entries[place]? with
  | some (known, number) => if known = description then some (number, s) else enter place
  | none => enter place
where
  enter (place : Nat) : Option (Nat × SharedStates) :=
    (s.tally.add? 1 extra).map fun sum =>
      (s.tally.states,
        { s with tally := sum, entries := s.entries.insert place (description, s.tally.states) })

end SharedStates

/-! ### Sets read backwards -/

/-- The states for one sequence of byte ranges, from its first byte, which is read last. -/
def backwardChain? (s : SharedStates) (next : Nat) : List ByteRange → Option SharedStates
  | [] => some s
  | (lo, hi) :: rest =>
    match s.state? [next, lo, hi] 0 with
    | some (number, s) => backwardChain? s number rest
    | none => none

/-- The states of a set that is read backwards. -/
def backwardSet? (set : CharSet) (t : Tally) : Option Tally := do
  let start ← t.add? 2 0
  let sequences := set.ranges.flatMap CharSet.byteSequences
  let s ← sequences.foldlM (fun s sequence => backwardChain? s (t.states + 1) sequence)
    (⟨start, 1000, ∅⟩ : SharedStates)
  s.tally.add? 0 (4 * sequences.length)

/-! ### Sets read forwards -/

/-- A state that may still get arrows: the descriptions of its arrows, the latest first, and the
byte range of the arrow whose target is not finished. -/
structure OpenState where
  arrows : List (List Nat)
  pending : Option ByteRange

namespace OpenState

/-- The state once the target of the pending arrow has a number. -/
def reaching (o : OpenState) (target : Nat) : OpenState :=
  match o.pending with
  | some (lo, hi) => ⟨[lo, hi, target] :: o.arrows, none⟩
  | none => o

end OpenState

/-- Finishes the open states beyond a depth, the innermost first. -/
def finishBeyond? (depth target : Nat) (s : SharedStates) :
    List OpenState → Option (List OpenState × SharedStates)
  | [] => some ([], s)
  | o :: outer =>
    let o := o.reaching target
    if depth < outer.length then
      match s.state? o.arrows.reverse.flatten (8 * o.arrows.length) with
      | some (number, s) => finishBeyond? depth number s outer
      | none => none
    else some (o :: outer, s)

/-- The number of byte ranges at the beginning of a sequence for which there are open states, the
outermost of which comes first. -/
def sharedDepth : List ByteRange → List OpenState → Nat
  | r :: rest, o :: inner => if o.pending = some r then sharedDepth rest inner + 1 else 0
  | _, _ => 0

/-- Takes a sequence of byte ranges into the open states, the innermost of which comes first. -/
def forwardSequence? (target : Nat) (opened : List OpenState) (s : SharedStates)
    (sequence : List ByteRange) : Option (List OpenState × SharedStates) := do
  let depth := sharedDepth sequence opened.reverse
  let (opened, s) ← finishBeyond? depth target s opened
  match opened, sequence.drop depth with
  | o :: outer, r :: rest =>
    let more := rest.foldl (fun os r => ⟨[], some r⟩ :: os) (⟨o.arrows, some r⟩ :: outer)
    some (more, s)
  | opened, _ => some (opened, s)

/-- The states of a set that is read forwards. -/
def forwardSet? (set : CharSet) (t : Tally) : Option Tally := do
  let start ← t.add? 1 0
  let (opened, s) ← (set.ranges.flatMap CharSet.byteSequences).foldlM
    (fun (opened, s) sequence => forwardSequence? t.states opened s sequence)
    ([⟨[], none⟩], (⟨start, 10000, ∅⟩ : SharedStates))
  let (opened, s) ← finishBeyond? 0 t.states s opened
  match opened with
  | [] => some s.tally
  | o :: _ => (s.state? o.arrows.reverse.flatten (8 * o.arrows.length)).map (·.2.tally)

/-! ### Choices between literals -/

/-- Words in the order of a choice, cut where one of them ends here.  Words that end before any
other goes on count once. -/
def cutAtEnds (words : List (List Nat)) : List (List (List Nat)) :=
  let parts := words.foldr (fun w parts =>
    match w, parts with
    | [], parts => [] :: parts
    | w, part :: parts => (w :: part) :: parts
    | w, [] => [[w]]) [[]]
  match parts with
  | [] :: rest =>
    match rest.dropWhile List.isEmpty with
    | [] => [[]]
    | going => [] :: going
  | _ => parts

/-- What follows each first byte of a list of words. -/
def byFirst (words : List (List Nat)) : List (List (List Nat)) :=
  let firsts := (words.filterMap List.head?).eraseDups
  firsts.map fun b => words.filterMap fun
    | [] => none
    | c :: rest => if c = b then some rest else none

/-- The states of the tree of a list of words, whose longest the first number bounds, and the
bytes of their arrows. -/
def treeStates : Nat → List (List Nat) → Nat × Nat
  | 0, _ => (0, 0)
  | n + 1, words =>
    if words.all List.isEmpty then (0, 0)
    else
      let parts := (cutAtEnds words).map byFirst
      let inner := (parts.flatten.map (treeStates n)).foldl
        (fun sum more => (sum.1 + more.1, sum.2 + more.2)) (0, 0)
      let going := parts.filter (!·.isEmpty)
      let arrows := going.foldl (fun sum part =>
        if part.length = 1 then sum else sum + 8 * part.length) 0
      let ways := parts.length - 1 + going.length
      let fork := if ways = 1 then (0, 0) else (1, 4 * ways)
      (inner.1 + going.length + fork.1, inner.2 + arrows + fork.2)

namespace Pattern

/-! ### Whole patterns -/

/-- The direction in which an automaton reads. -/
inductive Direction where
  | forward
  | backward
deriving DecidableEq

/-- Where a pattern stands: by itself, as the second of so many branches, or as a later branch. -/
inductive Standing where
  | alone
  | second (branches : Nat)
  | later

/-- The states that come after a branch: those where the choice begins and ends follow its second
branch. -/
def Standing.finish? : Standing → Tally → Option Tally
  | second branches, t => (t.fork? branches).bind (·.add? 1 0)
  | alone, t | later, t => some t

/-- The bytes of a literal. -/
def literalBytes? : Pattern → Option (List Nat)
  | literal cs => some (cs.flatMap fun c => CharSet.bytesOf c.toNat)
  | _ => none

/-- The states of a set. -/
def setStates? (d : Direction) (s : CharSet) (t : Tally) : Option Tally :=
  if s.isAscii then t.add? 2 (8 * s.ranges.length)
  else match d with
    | .forward => forwardSet? s t
    | .backward => backwardSet? s t

/-- The states of a choice between literals. -/
def literalsStates? (d : Direction) (words : List (List Nat)) (t : Tally) : Option Tally :=
  let words := match d with
    | .forward => words
    | .backward => words.map List.reverse
  let (states, extra) := treeStates (words.foldl (fun n w => max n w.length) 0 + 1) words
  t.add? (states + 1) extra

/-- The states of at least `min` and at most `max` rounds, given those of one round, which may be
empty unless it advances. -/
def roundsStates? (round : Tally → Option Tally) (advances : Bool) (min : Nat) (max : Option Nat)
    (t : Tally) : Option Tally :=
  match min, max with
  | 0, none =>
    if advances then (t.fork? 2).bind round else (round t).bind (·.add? 3 16)
  | n + 1, none => (t.times? round (n + 1)).bind (·.fork? 2)
  | 0, some 1 => ((t.fork? 2).bind round).bind (·.add? 1 0)
  | 0, some m => (t.add? 2 0).bind (Tally.times? (fun t => (t.fork? 2).bind round) m)
  | n + 1, some m =>
    if m ≤ n + 1 then t.times? round (n + 1)
    else ((t.times? round (n + 1)).bind (·.add? 1 0)).bind
      (Tally.times? (fun t => (t.fork? 2).bind round) (m - (n + 1)))

/-- The states of a pattern. -/
def states? (d : Direction) : Pattern → Standing → Tally → Option Tally
  | alt p q, .alone, t =>
    match (alt p q).branches.mapM literalBytes? with
    | some words => literalsStates? d words t
    | none => (p.states? d .alone t).bind (q.states? d (.second (q.branches.length + 1)))
  | alt p q, s, t => ((p.states? d .alone t).bind s.finish?).bind (q.states? d .later)
  | empty, s, t | look _, s, t => (t.add? 1 0).bind s.finish?
  | literal cs, s, t => (t.add? (byteSize cs) 0).bind s.finish?
  | one set, s, t => (setStates? d set t).bind s.finish?
  | seq p q, s, t =>
    match d with
    | .forward => ((p.states? d .alone t).bind (q.states? d .alone)).bind s.finish?
    | .backward => ((q.states? d .alone t).bind (p.states? d .alone)).bind s.finish?
  | group _ p, s, t =>
    match d with
    | .forward => (((t.add? 1 0).bind (p.states? d .alone)).bind (·.add? 1 0)).bind s.finish?
    | .backward => (p.states? d .alone t).bind s.finish?
  | repeated p min max _, s, t =>
    (roundsStates? (p.states? d .alone) p.advances min max t).bind s.finish?

/-- The states of a whole automaton.  One that may begin anywhere skips bytes first; one that
reads forwards also records where the match begins and ends. -/
def automaton? (d : Direction) (p : Pattern) : Option Tally :=
  let begins := match d with
    | .forward => p.asksFirst .textStart
    | .backward => p.asksLast .textEnd
  let marks := match d with
    | .forward => 1
    | .backward => 0
  let start : Option Tally := if begins then Tally.add? 1 0 ⟨0, 0⟩ else Tally.add? 3 16 ⟨0, 0⟩
  ((start.bind (·.add? marks 0)).bind (p.states? d .alone)).bind (·.add? (marks + 1) 0)

/-- A number of bytes that neither automaton exceeds. -/
def weightBound : Pattern → Nat
  | empty | look _ => 32
  | literal cs => 80 * byteSize cs + 100
  | one s => if s.isAscii then 72 + 8 * s.ranges.length else 100 + 2560 * s.ranges.length
  | seq p q => p.weightBound + q.weightBound
  | alt p q => p.weightBound + q.weightBound + 100
  | repeated p min max _ => (p.weightBound + 100) * (max.getD min + 1) + 100
  | group _ p => p.weightBound + 64

/-- Whether both automata stay within the limit.  They are only counted when a bound that is
quickly found does not decide it. -/
def fits (p : Pattern) : Bool :=
  p.weightBound + 300 ≤ Limits.maxPatternWeight ||
    ((p.automaton? .forward).isSome && (p.automaton? .backward).isSome)

end Pattern

end Highlighting
