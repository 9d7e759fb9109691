/-!
# Sets of characters given by intervals

A property of characters is a list of closed intervals of code points.  `Intervals.has` is
membership, and the tables of the other modules of this folder are read through it.
-/

namespace Highlighting

/-- A set of characters: closed intervals of code points in increasing order. -/
abbrev Intervals := List (Nat × Nat)

namespace Intervals

/-- Whether a character lies in one of the intervals. -/
def has (t : Intervals) (c : Char) : Bool :=
  t.any fun (lo, hi) => lo ≤ c.toNat && c.toNat ≤ hi

theorem has_iff {t : Intervals} {c : Char} :
    t.has c = true ↔ ∃ r ∈ t, r.1 ≤ c.toNat ∧ c.toNat ≤ r.2 := by
  simp [has]

end Intervals

end Highlighting
