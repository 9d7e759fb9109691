import Highlighting.Scan.Scanner

/-!
# Orders of progress

Much of what is said of a scan compares its progress in the end with that in the beginning: what was
found stays found, and the counters only grow.  If each single thing that a scan does leads to later
progress in an order (`Scanner.Obeys`), a whole scan does (`Scanner.Obeys.scan`).

What a push counts depends on the height of the state stack, so an order may ask that the stack fits
the progress.
-/

namespace Highlighting

/-- Wherever a rescan is started, it leads to later progress. -/
def Rescan.Obeys (le : Progress → Progress → Prop) (rescan : Rescan) : Prop :=
  ∀ state text offset p, le p (rescan state text offset p)

/-- Each single thing that a scan does leads to later progress, and leaves a stack that fits it. -/
structure Scanner.Obeys (s : Scanner) (le : Progress → Progress → Prop)
    (fits : Progress → List Nat → Prop) : Prop where
  refl : ∀ p, le p p
  trans : ∀ {p q q'}, le p q → le q q' → le p q'
  push : ∀ p category start stop, le p (p.push category start stop)
  unmatched : ∀ state c ch p, le p (s.unmatched state c ch p)
  truncate : ∀ c p, le p (s.truncate c p)
  start : ∀ p state, fits p [state]
  later : ∀ {p q stack}, fits p stack → le p q → fits q stack
  follow : ∀ t {stack p}, fits p stack →
    le p (s.follow t stack p).2 ∧ fits (s.follow t stack p).2 (s.follow t stack p).1

namespace Scanner.Obeys

variable {s : Scanner} {le : Progress → Progress → Prop} {fits : Progress → List Nat → Prop}
  {rescan : Rescan} {p : Progress} {stack : List Nat}

theorem emitGroup (h : s.Obeys le fits) (hrescan : rescan.Obeys le) (c : Cursor)
    (action : GroupAction Nat) (start stop : Nat) (p : Progress) :
    le p (Scanner.emitGroup rescan c action start stop p) := by
  cases action with
  | token category | keywords table => exact h.push p _ _ _
  | scan state => exact hrescan _ _ _ p

theorem emitGroups (h : s.Obeys le fits) (hrescan : rescan.Obeys le) (c : Cursor) (stop place : Nat)
    (gs : List (GroupAction Nat × Option (Nat × Nat))) (p : Progress) :
    le p (Scanner.emitGroups rescan c stop place gs p) := by
  induction gs generalizing place p with
  | nil => exact h.push p _ _ _
  | cons g gs ih =>
    obtain ⟨action, _ | ⟨first, last⟩⟩ := g
    · exact ih place p
    · rw [Scanner.emitGroups]
      split
      · have hgap := h.push p .text place first
        exact h.trans hgap (h.trans (h.emitGroup hrescan c action first last _) (ih last _))
      · exact ih place p

theorem emit (h : s.Obeys le fits) (hrescan : rescan.Obeys le) (c : Cursor) (r : CompiledRule)
    (m : RuleMatch) (p : Progress) : le p (Scanner.emit rescan c r m p) := by
  rw [Scanner.emit]
  split
  · exact h.push p _ _ _
  · exact h.push p _ _ _
  · exact h.emitGroups hrescan c _ _ _ p

theorem step (h : s.Obeys le fits) (hrescan : rescan.Obeys le) (c : Cursor) (ch : Char)
    (rest : List Char) (hfits : fits p stack) :
    le p (s.step rescan c ch rest stack p).2.2 ∧
      fits (s.step rescan c ch rest stack p).2.2 (s.step rescan c ch rest stack p).2.1 := by
  rw [Scanner.step]
  split
  · next r m _ =>
    have hemit := h.emit hrescan c r m p
    obtain ⟨hfollow, hfits'⟩ := h.follow r.transition (h.later hfits hemit)
    exact ⟨h.trans hemit hfollow, hfits'⟩
  · have hfound := h.unmatched (stack.headD 0) c ch p
    exact ⟨hfound, h.later hfits hfound⟩

theorem scanFrom (h : s.Obeys le fits) (hrescan : rescan.Obeys le) (bound : List Char) (c : Cursor)
    (hfits : fits p stack) : le p (s.scanFrom rescan bound c stack p) := by
  induction bound generalizing c stack p with
  | nil => exact h.refl p
  | cons b bound ih =>
    rw [Scanner.scanFrom]
    split
    · exact h.refl p
    · next ch rest _ =>
      split
      · exact h.truncate c p
      · obtain ⟨hstep, hfits'⟩ := h.step hrescan c ch rest hfits
        exact h.trans hstep (ih _ hfits')

/-- A whole scan leads to later progress, however many levels of groups it may scan anew. -/
theorem scan (h : s.Obeys le fits) (levels : Nat) : Rescan.Obeys le (s.scan levels) := by
  induction levels with
  | zero =>
    intro state text offset p
    exact h.scanFrom (fun _ _ _ p => h.push p _ _ _) _ _ (h.start p state)
  | succ levels ih =>
    intro state text offset p
    exact h.scanFrom ih _ _ (h.start p state)

end Scanner.Obeys

end Highlighting
