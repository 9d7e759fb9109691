import Highlighting.Pattern.Basic

/-!
# Routes

A route is a pattern laid out for threads that walk through it side by side.  Wherever threads can
come together (behind a choice, at the head of a loop) or may have to wait (at a condition) the
route has a numbered mark, and at each place of a text only the first thread to reach a mark goes
on.  The others would only repeat what that thread does, with less preference.  So a walk takes
time in proportion to the length of the text, and a loop whose round consumes nothing ends by
itself.
-/

namespace Highlighting

/-- A pattern as threads walk through it. -/
inductive Route where
  /-- nothing more -/
  | done
  /-- characters that stand for themselves -/
  | text (cs : List Char)
  /-- one character of a set -/
  | one (s : CharSet)
  /-- a condition that consumes nothing -/
  | look (mark : Nat) (l : Look)
  /-- the place is recorded in a slot -/
  | record (slot : Nat)
  /-- threads come together -/
  | meet (mark : Nat)
  /-- the first route and then the second -/
  | seq (p q : Route)
  /-- both routes, the first being preferred -/
  | fork (p q : Route)
  /-- any number of rounds of a route; threads come together before each -/
  | star (mark : Nat) (p : Route) (greedy : Bool)
  /-- one or more rounds of a route; threads come together before each -/
  | plus (mark : Nat) (p : Route) (greedy : Bool)
  /-- what follows a round of `plus`: more rounds, or none -/
  | again (mark : Nat) (p : Route) (greedy : Bool)
deriving DecidableEq, Inhabited

namespace Route

/-- The slot for the start of a group. -/
def startSlot (index : Nat) : Nat := 2 * index

/-- The slot for the end of a group. -/
def stopSlot (index : Nat) : Nat := 2 * index + 1

/-- Two routes, the first being preferred when greedy and the second when not. -/
def prefer (greedy : Bool) (p q : Route) : Route := if greedy then .fork p q else .fork q p

/-- Routes in front of a last one; the latest comes first. -/
def before (last : Route) (ps : List Route) : Route := ps.foldl (fun q p => .seq p q) last

/-- Optional routes, each being reached only through those before it; the latest comes first. -/
def optional (greedy : Bool) (ps : List Route) : Route :=
  ps.foldl (fun q p => prefer greedy (.seq p q) .done) .done

/-- So many routes like one with marks of their own, in front of others, the latest first. -/
def copies (round : Nat → Route × Nat) : Nat → List Route → Nat → List Route × Nat
  | 0, ps, mark => (ps, mark)
  | n + 1, ps, mark =>
    let (p, mark) := round mark
    copies round n (p :: ps) mark

/-- At least `min` and at most `max` rounds.  A loop whose rounds consume something is entered at
its head; otherwise a first round is optional and more may follow it. -/
def rounds (round : Nat → Route × Nat) (advances : Bool) (min : Nat) (max : Option Nat)
    (greedy : Bool) (mark : Nat) : Route × Nat :=
  match min, max with
  | 0, none =>
    if advances then
      let (p, next) := round (mark + 1)
      (.star mark p greedy, next)
    else
      let (p, next) := round (mark + 2)
      (.seq (prefer greedy (.plus mark p greedy) .done) (.meet (mark + 1)), next)
  | n + 1, none =>
    let (ps, mark) := copies round n [] mark
    let (p, next) := round (mark + 1)
    (before (.plus mark p greedy) ps, next)
  | n, some m =>
    let (ps, mark) := copies round n [] mark
    if m ≤ n then (before .done ps, mark)
    else
      let (more, mark) := copies round (m - n) [] mark
      (before (.seq (optional greedy more) (.meet mark)) ps, mark + 1)

/-- The route of a pattern with marks from a number on, and the next number.  A choice that is
itself the last branch of a choice leaves it to that one to bring the threads together. -/
def ofPattern : Pattern → Bool → Nat → Route × Nat
  | .empty, _, mark => (.done, mark)
  | .literal cs, _, mark => (.text cs, mark)
  | .one s, _, mark => (.one s, mark)
  | .look l, _, mark => (.look mark l, mark + 1)
  | .seq p q, _, mark =>
    let (r, mark) := ofPattern p false mark
    let (s, mark) := ofPattern q false mark
    (.seq r s, mark)
  | .alt p q, isBranch, mark =>
    let (r, mark) := ofPattern p false mark
    let (s, mark) := ofPattern q true mark
    if isBranch then (.fork r s, mark) else (.seq (.fork r s) (.meet mark), mark + 1)
  | .repeated p min max greedy, _, mark =>
    rounds (ofPattern p false) p.advances min max greedy mark
  | .group index p, _, mark =>
    let (r, mark) := ofPattern p false mark
    (.seq (.record (startSlot index)) (.seq r (.record (stopSlot index))), mark)

end Route

end Highlighting
