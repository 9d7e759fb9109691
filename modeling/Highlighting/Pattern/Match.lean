import Highlighting.Pattern.Reader
import Highlighting.Pattern.Route

/-!
# Matching

`Matcher.find?` gives the preferred match of a pattern from the first place of a text that has one.

Threads walk through the route of the pattern side by side, the preferred one first.  At each place
`settle` moves them on until every one of them either is about to read the character ahead or has
ended, and `walk` takes the threads that can read it to the next place.  A thread that has reached
the end of the route is a match, and the threads after it are dropped; those before it may still
find a match that is preferred because it is theirs.
-/

namespace Highlighting

/-- A place in a text: the character before it, the characters after it, and the number of bytes
that precede it in the whole source. -/
structure Cursor where
  before : Option Char
  ahead : List Char
  offset : Nat
deriving DecidableEq, Inhabited

namespace Cursor

/-- The start of a text that lies at some offset of the source. -/
def start (text : List Char) (offset : Nat) : Cursor := ⟨none, text, offset⟩

/-- The place after a character that is read here. -/
def past (c : Cursor) (ch : Char) (rest : List Char) : Cursor :=
  ⟨some ch, rest, c.offset + ch.utf8Size⟩

@[simp] theorem ahead_past (c : Cursor) (ch : Char) (rest : List Char) :
    (c.past ch rest).ahead = rest := rfl

@[simp] theorem before_past (c : Cursor) (ch : Char) (rest : List Char) :
    (c.past ch rest).before = some ch := rfl

@[simp] theorem offset_past (c : Cursor) (ch : Char) (rest : List Char) :
    (c.past ch rest).offset = c.offset + ch.utf8Size := rfl

end Cursor

/-- Whether a word character stands on a side of a place. -/
def isWordSide : Option Char → Bool
  | some c => isWordChar c
  | none => false

namespace Look

/-- Whether a place meets the condition. -/
def holds (c : Cursor) : Look → Bool
  | textStart => c.before.isNone
  | textEnd => c.ahead.isEmpty
  | lineStart => c.before.isNone || c.before == some '\n'
  | lineEnd => c.ahead.isEmpty || c.ahead.head? == some '\n'
  | wordBoundary => isWordSide c.before != isWordSide c.ahead.head?
  | noWordBoundary => isWordSide c.before == isWordSide c.ahead.head?

end Look

/-- The offsets recorded in slots so far, the latest first. -/
abbrev Captures := List (Nat × Nat)

namespace Captures

/-- The latest offset in a slot. -/
def slot? (caps : Captures) (slot : Nat) : Option Nat := caps.lookup slot

/-- The latest range of a group. -/
def get? (caps : Captures) (index : Nat) : Option (Nat × Nat) :=
  match caps.slot? (Route.startSlot index), caps.slot? (Route.stopSlot index) with
  | some start, some stop => some (start, stop)
  | _, _ => none

/-- The latest ranges of the groups from 1 to a number. -/
def upTo (caps : Captures) (count : Nat) : List (Option (Nat × Nat)) :=
  (List.range count).map fun i => caps.get? (i + 1)

end Captures

/-! ### Threads at one place -/

/-- A way through a pattern: the routes that are left, and the offsets recorded so far. -/
structure Thread where
  rest : List Route
  caps : Captures
deriving DecidableEq, Inhabited

/-- The threads at a place. -/
structure Front where
  /-- the marks that no thread has reached here, as the bits of a number -/
  unmet : Nat
  /-- the threads that go on, the latest first -/
  live : List Thread
  /-- what the preferred thread that has ended here has recorded -/
  hit : Option Captures
deriving DecidableEq, Inhabited

namespace Front

/-- No thread yet, and none of the given marks reached. -/
def start (marks : Nat) : Front := ⟨marks, [], none⟩

/-- One more thread that goes on. -/
def keep (f : Front) (rest : List Route) (caps : Captures) : Front :=
  { f with live := ⟨rest, caps⟩ :: f.live }

/-- One more thread that goes on under a condition. -/
def keepIf (f : Front) (goesOn : Bool) (rest : List Route) (caps : Captures) : Front :=
  { f with live := if goesOn then ⟨rest, caps⟩ :: f.live else f.live }

/-- A mark is reached. -/
def reach (f : Front) (mark : Nat) : Front := { f with unmet := f.unmet - (1 <<< mark) }

end Front

/-- Moves a thread on through a route without reading, in the order of preference; `rest` is what
is left behind the route, and `go` moves a thread on that has come to its end.  With sight of the
character ahead a thread reads it or is dropped, and once a thread has ended all others are
dropped.  Without it, threads that would read or that ask about the character ahead are kept.

A thread that comes back to the head of a loop at the same place is dropped, because the mark there
is reached. -/
def visit (sight : Bool) (c : Cursor) (r : Route) (rest : List Route)
    (go : Captures → Front → Front) (caps : Captures) (f : Front) : Front :=
  if f.hit.isSome then f
  else match r with
  | .done => go caps f
  | .text cs =>
    if sight then
      match cs, c.ahead.head? with
      | [x], some ch => f.keepIf (x = ch) rest caps
      | x :: xs, some ch => f.keepIf (x = ch) (.text xs :: rest) caps
      | _, _ => f
    else f.keep (.text cs :: rest) caps
  | .one s =>
    if sight then
      match c.ahead.head? with
      | some ch => f.keepIf (s.has ch) rest caps
      | none => f
    else f.keep (.one s :: rest) caps
  | .look mark l =>
    if f.unmet.testBit mark then
      if !sight && l.looksAhead then (f.reach mark).keep (.look mark l :: rest) caps
      else if l.holds c then go caps (f.reach mark)
      else f.reach mark
    else f
  | .record slot => go ((slot, c.offset) :: caps) f
  | .meet mark => if f.unmet.testBit mark then go caps (f.reach mark) else f
  | .seq p q => visit sight c p (q :: rest) (visit sight c q rest go) caps f
  | .fork p q => visit sight c q rest go caps (visit sight c p rest go caps f)
  | .star mark p greedy =>
    if f.unmet.testBit mark then
      let more := visit sight c p (.star mark p greedy :: rest) (fun _ f => f) caps
      if greedy then go caps (more (f.reach mark)) else more (go caps (f.reach mark))
    else f
  | .plus mark p greedy =>
    if f.unmet.testBit mark then
      visit sight c p (.again mark p greedy :: rest) go caps (f.reach mark)
    else f
  | .again mark p greedy =>
    let more := fun f : Front =>
      if f.unmet.testBit mark then
        visit sight c p (.again mark p greedy :: rest) go caps (f.reach mark)
      else f
    if greedy then go caps (more f) else more (go caps f)

/-- Moves a thread on through all the routes that are left to it. -/
def follow (sight : Bool) (c : Cursor) : List Route → Captures → Front → Front
  | [], caps, f =>
    if f.hit.isSome then f
    else if sight then { f with hit := some caps }
    else f.keep [] caps
  | r :: rest, caps, f => visit sight c r rest (follow sight c rest) caps f

/-- Moves threads on, in the order of preference. -/
def settle (sight : Bool) (c : Cursor) (ts : List Thread) (f : Front) : Front :=
  ts.foldl (fun f t => follow sight c t.rest t.caps f) f

/-! ### Walks -/

/-- A pattern ready to be matched. -/
structure Matcher where
  /-- the way that threads walk -/
  route : Route
  /-- its marks, as the bits of a number -/
  marks : Nat
  /-- the number of its groups -/
  groups : Nat
  /-- whether a match can only begin at the start of the text -/
  anchored : Bool
  /-- whether a round of a loop may ask about the character ahead and consume nothing -/
  idleLook : Bool
  /-- whether some condition asks about word characters -/
  asksForWords : Bool
deriving DecidableEq, Inhabited

namespace Matcher

/-- The matcher of a pattern. -/
def ofRead (r : Pattern.Read) : Matcher :=
  let (route, marks) := Route.ofPattern r.pattern false 0
  ⟨route, (1 <<< marks) - 1, r.groups, r.pattern.asksFirst .textStart, r.pattern.hasIdleLook,
    r.pattern.anyLook Look.asksForWords⟩

/-- Reads a written pattern. -/
def parse (text : List Char) : Except PatternError Matcher := (Pattern.parse text).map ofRead

/-- The thread that has yet to walk the whole route. -/
def firstThread (m : Matcher) : Thread := ⟨[m.route], []⟩

/-- Takes threads through the characters ahead, up to an offset if one is given.  The match is the
last one found, because threads that would have been preferred to it have ended by then. -/
def walk (m : Matcher) (limit : Option Nat) :
    List Char → Cursor → List Thread → Option (Captures × Cursor) → Option (Captures × Cursor)
  | ahead, c, threads, best =>
    let f := settle true c threads (.start m.marks)
    let best := match f.hit with
      | some caps => some (caps, c)
      | none => best
    match ahead with
    | [] => best
    | ch :: rest =>
      if f.live.isEmpty || limit == some c.offset then best
      else walk m limit rest (c.past ch rest) f.live.reverse best

/-- Where the match ends when at each place threads first go as far as they can without sight of
the character ahead, and marks are forgotten before they go on; nothing if such a walk meets a
character beyond ASCII while words are asked for. -/
def walkBlind (m : Matcher) :
    List Char → Cursor → List Thread → Option Cursor → Option (Option Cursor)
  | ahead, c, threads, best =>
    let waiting := (settle false c threads (.start m.marks)).live.reverse
    if waiting.isEmpty then some best
    else if m.asksForWords && (ahead.head?.any fun ch => 0x80 ≤ ch.toNat) then none
    else
      let f := settle true c waiting (.start m.marks)
      let best := if f.hit.isSome then some c else best
      match ahead with
      | [] => some best
      | ch :: rest => walkBlind m rest (c.past ch rest) f.live.reverse best

/-- The preferred match from a place, and the ranges of its groups if they are wanted.  A pattern
with idle loops that look ahead is walked blind; its groups come from a second walk that ends where
the first one did. -/
def matchFrom? (m : Matcher) (wantsGroups : Bool) (c : Cursor) : Option (Captures × Cursor) :=
  let plain := fun limit => m.walk limit c.ahead c [m.firstThread] none
  if m.idleLook && !(m.asksForWords && c.before.any fun ch => 0x80 ≤ ch.toNat) then
    match m.walkBlind c.ahead c [m.firstThread] none with
    | none => plain none
    | some none => none
    | some (some stop) =>
      if wantsGroups && m.groups != 0 then plain (some stop.offset) else some ([], stop)
  else plain none

/-- The preferred match from the first place, at or after a given one, that has a match. -/
def findFrom? (m : Matcher) (wantsGroups : Bool) (c : Cursor) :
    List Char → Option (Captures × Cursor)
  | [] => m.matchFrom? wantsGroups c
  | ch :: rest =>
    match m.matchFrom? wantsGroups c with
    | some found => some found
    | none => findFrom? m wantsGroups (c.past ch rest) rest

/-- The preferred match from the first place that has one.  A pattern that asks for the start of
the text is tried at the first place only. -/
def find? (m : Matcher) (wantsGroups : Bool) (c : Cursor) : Option (Captures × Cursor) :=
  if m.anchored then m.matchFrom? wantsGroups c else m.findFrom? wantsGroups c c.ahead

/-- Whether a text has a match anywhere. -/
def isMatch (m : Matcher) (text : List Char) : Bool := (m.find? false (.start text 0)).isSome

end Matcher

end Highlighting
