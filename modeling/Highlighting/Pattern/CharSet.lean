import Highlighting.Text.Blank
import Highlighting.Text.WordChar
import Highlighting.Text.CaseMap

/-!
# Character sets

A set of characters as closed ranges of code points, in increasing order and with a gap between
any two, so that equal sets have equal ranges.  The code points between `0xd7ff` and `0xe000` are
no characters; ranges run across them as if they were not there.
-/

namespace Highlighting

/-- A set of characters by its ranges of code points. -/
structure CharSet where
  ranges : Intervals
deriving DecidableEq, Inhabited

namespace CharSet

/-- The largest code point. -/
def lastPoint : Nat := 0x10ffff

/-- The code point of the next character. -/
def following (n : Nat) : Nat := if n = 0xd7ff then 0xe000 else n + 1

/-- The code point of the previous character. -/
def preceding (n : Nat) : Nat := if n = 0xe000 then 0xd7ff else n - 1

/-- Whether a code point lies in one of the ranges, of which only those that begin before it are
looked at. -/
def covers (n : Nat) : Intervals → Bool
  | [] => false
  | (lo, hi) :: rest => lo ≤ n && (n ≤ hi || covers n rest)

/-- Membership. -/
def has (s : CharSet) (c : Char) : Bool := covers c.toNat s.ranges

/-! ### Building sets -/

/-- The ranges of a list in the order of their starts, after a first range, with those that
overlap or touch made one. -/
def joinFrom (lo hi : Nat) : Intervals → Intervals
  | [] => [(lo, hi)]
  | (a, b) :: rest =>
    if a ≤ following hi then joinFrom lo (max hi b) rest else (lo, hi) :: joinFrom a b rest

/-- The set with the ranges of a list in the order of their starts. -/
def ofSorted : Intervals → CharSet
  | [] => ⟨[]⟩
  | (lo, hi) :: rest => ⟨joinFrom lo hi rest⟩

/-- Puts a range in front of the first range that starts no earlier. -/
def insertRange (r : Nat × Nat) : Intervals → Intervals
  | [] => [r]
  | t :: ts => if r.1 ≤ t.1 then r :: t :: ts else t :: insertRange r ts

/-- The set with the ranges of any list. -/
def ofRanges (rs : Intervals) : CharSet := ofSorted (rs.foldr insertRange [])

/-- The characters from one to another. -/
def range (first last : Char) : CharSet := ⟨[(first.toNat, last.toNat)]⟩

/-- The set with one character. -/
def single (c : Char) : CharSet := range c c

/-- No character. -/
def empty : CharSet := ⟨[]⟩

/-- Every character. -/
def all : CharSet := ⟨[(0, lastPoint)]⟩

/-- The word characters. -/
def word : CharSet := ⟨wordIntervals⟩

/-- The decimal digits. -/
def digit : CharSet := ⟨digitIntervals⟩

/-- White space. -/
def blank : CharSet := ⟨blankIntervals⟩

/-- The characters in either of two sets. -/
def union (s t : CharSet) : CharSet := ofRanges (s.ranges ++ t.ranges)

/-- The gaps between ranges from a code point on. -/
def gapsFrom (start : Nat) : Intervals → Intervals
  | [] => if start ≤ lastPoint then [(start, lastPoint)] else []
  | (lo, hi) :: rest =>
    if start < lo then (start, preceding lo) :: gapsFrom (following hi) rest
    else gapsFrom (following hi) rest

/-- The characters outside a set. -/
def compl (s : CharSet) : CharSet := ⟨gapsFrom 0 s.ranges⟩

/-- The common parts of two lists of ranges. -/
def overlaps : Intervals → Intervals → Intervals
  | [], _ => []
  | _ :: _, [] => []
  | (a, b) :: s, (x, y) :: t =>
    let more := if b < y then overlaps s ((x, y) :: t) else overlaps ((a, b) :: s) t
    if max a x ≤ min b y then (max a x, min b y) :: more else more
termination_by s t => s.length + t.length

/-- The characters in both of two sets. -/
def inter (s t : CharSet) : CharSet := ⟨overlaps s.ranges t.ranges⟩

/-- The characters of the first set that are not in the second. -/
def diff (s t : CharSet) : CharSet := s.inter t.compl

/-- The characters in exactly one of two sets. -/
def symmDiff (s t : CharSet) : CharSet := (s.diff t).union (t.diff s)

/-- The characters of a set in order. -/
def toList (s : CharSet) : List Char :=
  s.ranges.flatMap fun (lo, hi) => (List.range (hi + 1 - lo)).filterMap fun i =>
    if (lo + i).isValidChar then some (Char.ofNat (lo + i)) else none

/-- The characters that have case variants. -/
def foldable : CharSet :=
  ofRanges (foldRuns.flatMap fun r => r.sources.flatMap fun n => [(n, n), (r.target n, r.target n)])

/-- The set with the case variants of its characters. -/
def ignoringCase (s : CharSet) : CharSet :=
  let variants := (s.inter foldable).toList.flatMap caseVariants
  s.union (ofRanges (variants.map fun c => (c.toNat, c.toNat)))

/-- Every character but the line feed. -/
def notNewline : CharSet := compl (single '\n')

/-- The only character of a set. -/
def only? (s : CharSet) : Option Char :=
  match s.ranges with
  | [(lo, hi)] => if lo = hi then some (Char.ofNat lo) else none
  | _ => none

/-- Whether a set holds nothing. -/
def isEmpty (s : CharSet) : Bool := s.ranges.isEmpty

theorem has_range (a b c : Char) :
    (range a b).has c = (decide (a.toNat ≤ c.toNat) && decide (c.toNat ≤ b.toNat)) := by
  simp [has, range, covers]

@[simp] theorem has_single (a c : Char) : (single a).has c = decide (c = a) := by
  rw [single, has_range, Bool.eq_iff_iff, Bool.and_eq_true, decide_eq_true_eq, decide_eq_true_eq,
    decide_eq_true_eq]
  constructor
  · intro h
    exact Char.toNat_inj.1 (by omega)
  · rintro rfl
    omega

@[simp] theorem has_empty (c : Char) : empty.has c = false := rfl

@[simp] theorem only?_single (c : Char) : (single c).only? = some c := by
  simp [only?, single, range]

end CharSet

end Highlighting
