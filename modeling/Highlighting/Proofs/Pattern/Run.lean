import Highlighting.Proofs.Pattern.CharSet
import Highlighting.Proofs.Scan.RuleMatch

/-!
# Rules that take a run

The rule of identifiers reads a character of one set and then all the characters of another that
follow it (`CompiledRule.TakesRun`).  Where it matches, its match is the longest one: as long as the
loop may go on, the thread that goes on is preferred to the one that has ended
(`Matcher.walk_loop`).
-/

namespace Highlighting

/-- One character of a set, and then as many of another as there are. -/
def Route.run (first part : CharSet) : Route := .seq (.one first) (.star 1 (.one part) true)

namespace Matcher

/-- The matcher of a run at the start of a text. -/
def runAtStart (first part : CharSet) : Matcher :=
  ⟨.seq (.look 0 .textStart) (.run first part), 3, 0, true, false, false⟩

/-- The matcher of a run behind the character before it. -/
def runInContext (first part : CharSet) : Matcher :=
  ⟨.seq (.look 0 .textStart) (.seq (.one .all) (.run first part)), 3, 0, true, false, false⟩

variable {m : Matcher} {c d e : Cursor} {u : List Char} {caps : Captures} {k : Nat}
  {first part s : CharSet} {x : Char}

/-- A thread at a route may end there, or read one more character of a set, which is preferred, and
is back at the route. -/
def IsLoop (m : Matcher) (loop : Route) (s : CharSet) : Prop :=
  ∀ (c : Cursor) (caps : Captures), ∃ unmet,
    settle true c [⟨[loop], caps⟩] (.start m.marks) =
      ⟨unmet, if c.ahead.head?.any s.has then [⟨[loop], caps⟩] else [], some caps⟩

theorem isLoop_star (hk : m.marks.testBit k = true) : m.IsLoop (.star k (.one s) true) s := by
  intro c caps
  refine ⟨m.marks - (1 <<< k), ?_⟩
  cases hahead : c.ahead with
  | nil => simp [settle, follow, visit, Front.start, Front.reach, hk, hahead]
  | cons x rest =>
    by_cases hx : s.has x = true <;>
      simp [settle, follow, visit, Front.start, Front.reach, Front.keepIf, hk, hahead, hx]

theorem isLoop_again (hk : m.marks.testBit k = true) : m.IsLoop (.again k (.one s) true) s := by
  intro c caps
  refine ⟨m.marks - (1 <<< k), ?_⟩
  cases hahead : c.ahead with
  | nil => simp [settle, follow, visit, Front.start, Front.reach, hk, hahead]
  | cons x rest =>
    by_cases hx : s.has x = true <;>
      simp [settle, follow, visit, Front.start, Front.reach, Front.keepIf, hk, hahead, hx]

/-- A thread at a loop takes all the characters that the loop may read. -/
theorem walk_loop {loop : Route} (hloop : m.IsLoop loop part) {ahead : List Char}
    (hc : c.ahead = ahead) (hu : c.Reads u d) (hpart : ∀ ch ∈ u, part.has ch = true)
    (hstop : d.ahead.head?.any part.has = false) (best : Option (Captures × Cursor)) :
    m.walk none ahead c [⟨[loop], caps⟩] best = some (caps, d) := by
  induction u generalizing c ahead best with
  | nil =>
    obtain rfl := Cursor.reads_nil.1 hu
    obtain ⟨unmet, hsettle⟩ := hloop c caps
    unfold walk
    rw [hsettle, hstop]
    cases ahead <;> rfl
  | cons x u ih =>
    obtain ⟨rest, hahead, hu⟩ := hu
    obtain rfl := hahead.symm.trans hc
    obtain ⟨unmet, hsettle⟩ := hloop c caps
    unfold walk
    rw [hsettle, hahead]
    simp only [List.head?_cons, Option.any_some, hpart x List.mem_cons_self, if_true]
    exact ih rfl hu (fun ch hch => hpart ch (List.mem_cons_of_mem x hch)) _

theorem walk_run (hm : m.marks.testBit 1 = true) (hx : first.has x = true)
    (hu : c.Reads (x :: u) d) (hpart : ∀ ch ∈ u, part.has ch = true)
    (hstop : d.ahead.head?.any part.has = false) :
    m.walk none c.ahead c [⟨[.run first part], []⟩] none = some ([], d) := by
  obtain ⟨rest, hahead, hu⟩ := hu
  have hsettle : settle true c [⟨[.run first part], []⟩] (.start m.marks) =
      ⟨m.marks, [⟨[.star 1 (.one part) true], []⟩], none⟩ := by
    simp [settle, follow, visit, Route.run, Front.start, Front.keepIf, hahead, hx]
  unfold walk
  rw [hsettle, hahead]
  exact walk_loop (isLoop_star hm) rfl hu hpart hstop none

theorem find?_runAtStart (hc : c.before = none) (hx : first.has x = true)
    (hu : c.Reads (x :: u) d) (hpart : ∀ ch ∈ u, part.has ch = true)
    (hstop : d.ahead.head?.any part.has = false) (wantsGroups : Bool) :
    (runAtStart first part).find? wantsGroups c = some ([], d) := by
  obtain ⟨rest, hahead, hrest⟩ := hu
  have hsettle : settle true c [(runAtStart first part).firstThread] (.start 3) =
      ⟨2, [⟨[.star 1 (.one part) true], []⟩], none⟩ := by
    simp [firstThread, runAtStart, settle, follow, visit, Route.run, Front.start, Front.reach,
      Front.keepIf, Look.holds, hc, hahead, hx]
  have hwalk : (runAtStart first part).walk none c.ahead c [(runAtStart first part).firstThread]
      none = some ([], d) := by
    have hloop : (runAtStart first part).marks.testBit 1 = true :=
      show Nat.testBit 3 1 = true by decide
    unfold walk
    rw [show (runAtStart first part).marks = 3 from rfl, hsettle, hahead]
    exact walk_loop (isLoop_star hloop) rfl hrest hpart hstop none
  simpa [find?, matchFrom?, runAtStart] using hwalk

theorem find?_runInContext {b : Char} (hc : c.before = none) (hb : c.Reads [b] e)
    (hx : first.has x = true) (hu : e.Reads (x :: u) d) (hpart : ∀ ch ∈ u, part.has ch = true)
    (hstop : d.ahead.head?.any part.has = false) (wantsGroups : Bool) :
    (runInContext first part).find? wantsGroups c = some ([], d) := by
  obtain ⟨rest, hahead, rfl⟩ := hb
  have hsettle : settle true c [(runInContext first part).firstThread] (.start 3) =
      ⟨2, [⟨[.run first part], []⟩], none⟩ := by
    simp [firstThread, runInContext, settle, follow, visit, Front.start, Front.reach,
      Front.keepIf, Look.holds, hc, hahead, CharSet.has_all]
  have hwalk : (runInContext first part).walk none c.ahead c
      [(runInContext first part).firstThread] none = some ([], d) := by
    have hloop : (runInContext first part).marks.testBit 1 = true :=
      show Nat.testBit 3 1 = true by decide
    unfold walk
    rw [show (runInContext first part).marks = 3 from rfl, hsettle, hahead]
    exact walk_run hloop hx hu hpart hstop
  simpa [find?, matchFrom?, runInContext] using hwalk

end Matcher

namespace CompiledRule

/-- A rule matches one character of a set and then characters of another, without groups. -/
structure TakesRun (r : CompiledRule) (first part : CharSet) : Prop where
  atStart : r.atStart = .runAtStart first part
  inContext : r.inContext = .runInContext first part
  wantsGroups : r.action.wantsGroups = false

variable {r : CompiledRule} {c d : Cursor} {u : List Char} {first part : CharSet} {x : Char}

/-- A rule that takes runs takes the longest one. -/
theorem TakesRun.matchAt?_eq (h : r.TakesRun first part) (hc : c.Placed)
    (hx : first.has x = true) (hu : c.Reads (x :: u) d) (hpart : ∀ ch ∈ u, part.has ch = true)
    (hstop : d.ahead.head?.any part.has = false) : r.matchAt? c = some ⟨d, []⟩ := by
  have hlt : c.offset < d.offset := by
    have hsize := byteSize_pos (List.cons_ne_nil x u)
    rw [hu.offset]
    omega
  have hfind : (r.matcherAt c).find? r.action.wantsGroups (outlook c) = some ([], d) := by
    cases hb : c.before with
    | none =>
      rw [matcherAt, outlook, hb]
      simp only [Option.isNone_none, if_true]
      rw [h.atStart]
      exact Matcher.find?_runAtStart hb hx hu hpart hstop _
    | some b =>
      rw [matcherAt, outlook, hb]
      simp only [Option.isNone_some, Bool.false_eq_true, if_false]
      rw [h.inContext]
      exact Matcher.find?_runInContext rfl (hc.reads_back hb) hx hu hpart hstop _
  rw [CompiledRule.matchAt?_eq, hfind]
  simp [hlt, h.wantsGroups]

end CompiledRule

end Highlighting
