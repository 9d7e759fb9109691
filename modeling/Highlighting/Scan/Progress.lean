import Highlighting.Log.Logged
import Highlighting.Settings.Lexical
import Highlighting.Token

/-!
# Progress of a scan

While a source is scanned, `Progress` collects the tokens as byte ranges, the counters of the
metrics and the events.  Tokens are only ever added at the end, and empty ranges are never added.
-/

namespace Highlighting

/-- A token by its byte range in the source. -/
structure RawToken where
  category : Category
  start : Nat
  stop : Nat
deriving DecidableEq, Inhabited

namespace RawToken

/-- Puts a token in front of a list whose first token it joins if both have one category and the
ranges touch. -/
def joinFront (t : RawToken) : List RawToken → List RawToken
  | [] => [t]
  | u :: us =>
    if t.category = u.category ∧ t.stop = u.start then ⟨t.category, t.start, u.stop⟩ :: us
    else t :: u :: us

/-- The tokens with each run of touching neighbours of one category joined. -/
def mergeAdjacent (ts : List RawToken) : List RawToken := ts.foldr joinFront []

end RawToken

/-- What a scan has found so far. -/
structure Progress where
  tokens : Array RawToken := #[]
  /-- the bytes of the characters that no rule matched -/
  unmatchedBytes : Nat := 0
  /-- the most entries that a push has brought the state stack to -/
  maxDepth : Nat := 0
  /-- the pushes that found the state stack full -/
  ignoredPushes : Nat := 0
  /-- whether the token limit was reached -/
  truncated : Bool := false
  events : Array Event := #[]
deriving DecidableEq, Inhabited

namespace Progress

/-- Adds a token unless its range is empty. -/
def push (p : Progress) (category : Category) (start stop : Nat) : Progress :=
  if start < stop then { p with tokens := p.tokens.push ⟨category, start, stop⟩ } else p

/-- Adds an event. -/
def report (p : Progress) (e : Event) : Progress := { p with events := p.events.push e }

end Progress

end Highlighting
