import Highlighting.Pattern.CharSet

/-!
# Character classes

A class as a pattern writes it: named sets, characters and ranges, their unions, and the operators
that combine two of them.  `CharClass.set` is the set of characters it stands for.  When case is
ignored the named sets and ranges are closed under case variants and the way they are combined
stays the same, so that a complement is taken of the closed set.
-/

namespace Highlighting

/-- A class of characters as a pattern writes it. -/
inductive CharClass where
  /-- a named set, a character or a range -/
  | leaf (s : CharSet)
  | union (c d : CharClass)
  | inter (c d : CharClass)
  | diff (c d : CharClass)
  | symmDiff (c d : CharClass)
  | compl (c : CharClass)
deriving Inhabited

namespace CharClass

/-- The class with one character. -/
def single (c : Char) : CharClass := .leaf (.single c)

/-- The union of a list of classes. -/
def unionAll : List CharClass → CharClass
  | [] => .leaf .empty
  | c :: cs => cs.foldl .union c

/-- The ranges of a class in any order, in front of other ranges. -/
def rangesOnto (ignoreCase : Bool) : CharClass → Intervals → Intervals
  | leaf s, more => (if ignoreCase then s.ignoringCase else s).ranges ++ more
  | union c d, more => c.rangesOnto ignoreCase (d.rangesOnto ignoreCase more)
  | inter c d, more =>
    ((CharSet.ofRanges (c.rangesOnto ignoreCase [])).inter
      (.ofRanges (d.rangesOnto ignoreCase []))).ranges ++ more
  | diff c d, more =>
    ((CharSet.ofRanges (c.rangesOnto ignoreCase [])).diff
      (.ofRanges (d.rangesOnto ignoreCase []))).ranges ++ more
  | symmDiff c d, more =>
    ((CharSet.ofRanges (c.rangesOnto ignoreCase [])).symmDiff
      (.ofRanges (d.rangesOnto ignoreCase []))).ranges ++ more
  | compl c, more => (CharSet.ofRanges (c.rangesOnto ignoreCase [])).compl.ranges ++ more

/-- The set of characters that a class stands for. -/
def set (c : CharClass) (ignoreCase : Bool) : CharSet := .ofRanges (c.rangesOnto ignoreCase [])

end CharClass

end Highlighting
