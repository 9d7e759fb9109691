import Highlighting.Language.CFamily
import Highlighting.Proofs.Pattern.Readings
import Highlighting.Proofs.Scan.Reclassified
import Highlighting.Proofs.Scan.Unmentioned
import Highlighting.Proofs.Scan.VocabularyWord

/-!
# Words in front of a declarator

The declarator of a function is a rule of the C family that takes several words at once, from the
start of a line to an opening parenthesis.  Where an extension takes the first of these words, the
rest of the line is left to the other rules.  None of them goes over the parenthesis
(`CompiledRule.isTame`), and the declarator itself cannot match inside of a line; so the text up to
the parenthesis and the parenthesis are crossed (`Extension.Extends.crosses_run`).

The conditions on rules are computed from their routes, so that they can be checked for a grammar by
evaluation.
-/

namespace Highlighting

namespace Route

/-- Whether a route is one character. -/
def isOne : Route → Bool
  | .one _ => true
  | _ => false

/-- Whether a route asks for the start of a line first. -/
def asksLineStart : Route → Bool
  | .seq (.look _ .lineStart) _ => true
  | _ => false

variable {p : Route} {c d : Cursor}

theorem Leads.reads_one (h : p.Leads c d) (hp : p.isOne = true) : ∃ ch, c.Reads [ch] d := by
  cases p with
  | one s =>
    obtain ⟨ch, -, hd⟩ := h
    exact ⟨ch, hd⟩
  | _ => simp [isOne] at hp

theorem Leads.lineStart (h : p.Leads c d) (hp : p.asksLineStart = true) :
    c.before = none ∨ c.before = some '\n' := by
  unfold asksLineStart at hp
  split at hp
  · obtain ⟨e, ⟨hlook, -⟩, -⟩ := h
    simpa [Look.holds, Option.isNone_iff_eq_none] using hlook
  · cases hp

end Route

namespace CompiledRule

/-- Whether a rule stays in front of the parenthesis of a run and changes no state there, or takes
one character. -/
def isTame (r : CompiledRule) : Bool :=
  r.body?.any fun p =>
    (!p.opens && (r.transition = .stay || !p.passes)) || (p.isOne && r.transition = .stay)

/-- Whether a rule is the one of declarators. -/
def isDeclarator (r : CompiledRule) : Bool :=
  r.source = CFamily.declarator && r.transition = .stay &&
    r.body?.any fun p => p.asksLineStart && p.closes

variable {r : CompiledRule} {m : RuleMatch} {c e : Cursor} {v : List Char}

/-- In front of the parenthesis of a run a tame rule leaves the stack as it is.  It stays in front
of the parenthesis, or there is nothing in front and it takes the parenthesis. -/
theorem stays_of_isTame (h : r.isTame = true) (hc : c.Placed) (hv : Route.Runs c v e)
    (hm : r.matchAt? c = some m) :
    r.transition = .stay ∧ (Route.StaysIn v c m.stop ∨ (v = [] ∧ m.stop = e)) := by
  obtain ⟨p, hp, h⟩ := (Option.any_eq_true _ _).1 h
  have hleads := leads_of_body? hp hc hm
  simp only [Bool.or_eq_true, Bool.and_eq_true, Bool.not_eq_true', decide_eq_true_eq] at h
  rcases h with ⟨hopens, hstay⟩ | ⟨hone, hstay⟩
  · obtain ⟨hpasses, hstays⟩ := hleads.confined hopens hv
    refine ⟨?_, .inl hstays⟩
    rcases hstay with hstay | hnot
    · exact hstay
    · rw [hpasses] at hnot
      cases hnot
  · refine ⟨hstay, ?_⟩
    obtain ⟨ch, hd⟩ := hleads.reads_one hone
    rcases hv.head hd with ⟨rfl, -, rfl⟩ | ⟨v', rfl, -⟩
    · exact .inr ⟨rfl, rfl⟩
    · exact .inl ⟨[ch], v', rfl, hd⟩

/-- The declarator matches from the start of a line to the parenthesis of a run. -/
theorem runs_of_isDeclarator (h : r.isDeclarator = true) (hc : c.Placed)
    (hm : r.matchAt? c = some m) : r.source = CFamily.declarator ∧ r.transition = .stay ∧
      (c.before = none ∨ c.before = some '\n') ∧ ∃ v, Route.Runs c v m.stop := by
  simp only [isDeclarator, Bool.and_eq_true, decide_eq_true_eq] at h
  obtain ⟨⟨hsource, hstay⟩, h⟩ := h
  obtain ⟨p, hp, h⟩ := (Option.any_eq_true _ _).1 h
  rw [Bool.and_eq_true] at h
  have hleads := leads_of_body? hp hc hm
  exact ⟨hsource, hstay, hleads.lineStart h.1, hleads.runs h.2⟩

end CompiledRule

/-- Inside of a line, behind some character of it. -/
def Cursor.InLine (c : Cursor) : Prop := ∃ b, c.before = some b ∧ b ≠ '\n'

theorem Route.Runs.inLine {c d e : Cursor} {u v : List Char} (h : Route.Runs c (u ++ v) e)
    (hd : c.Reads u d) (hu : u ≠ []) : d.InLine := by
  refine ⟨u.getLast hu, ?_, ?_⟩
  · rw [hd.before, List.getLast?_eq_some_getLast hu]
    rfl
  · intro hlast
    have hclean := h.2 (u.getLast hu) (List.mem_append_left v (List.getLast_mem hu))
    rw [hlast] at hclean
    revert hclean
    decide

/-- The words of an extension. -/
def Extension.words (x : Extension) : List String := x.rules.flatMap (·.vocabulary.words)

namespace CFamily

/-- Whether the match of a rule at a place is that of a declarator with one of some words first. -/
def declares (words : List String) (c : Cursor) (r : CompiledRule) : Bool :=
  r.source == declarator && words.contains (String.ofList (c.ahead.takeWhile isWordChar))

end CFamily

theorem not_mem_paren_of_isWord {u : List Char} (h : ∀ ch ∈ u, isWordChar ch = true) :
    '(' ∉ u := by
  intro hparen
  have hword := h '(' hparen
  revert hword
  decide

namespace Extension

variable {x : Extension} {g g' : Grammar} {state : Nat} {c d e : Cursor} {run v : List Char}

theorem Has.isPlain {r : CompiledRule} (hr : x.Has r)
    (hplain : ∀ e ∈ x.rules, e.vocabulary.IsPlain) :
    ∃ v, r.IsVocabulary v ∧ v.IsPlain ∧ ∀ w ∈ v.words, w ∈ x.words := by
  obtain ⟨e, he, hr⟩ := hr
  exact ⟨e.vocabulary, hr, hplain e he, fun w hw => List.mem_flatMap.2 ⟨e, he, hw⟩⟩

/-- In front of the parenthesis of a run the rules of an extended state leave the stack as it is.
They stay in front of the parenthesis, or there is nothing in front and they take the
parenthesis. -/
theorem Extends.stays_run (h : x.Extends g g') (hplain : ∀ e ∈ x.rules, e.vocabulary.IsPlain)
    (hrules : ∀ r ∈ g.rules state, r.isTame = true ∨ r.isDeclarator = true)
    (hv : Route.Runs c v e) (hc : c.Placed) (hline : c.InLine) {r : CompiledRule} {m : RuleMatch}
    (hmem : r ∈ g'.rules state) (hm : r.matchAt? c = some m) :
    r.transition = .stay ∧ (Route.StaysIn v c m.stop ∨ (v = [] ∧ m.stop = e)) := by
  rcases (h.padded state).mem hmem with hput | hbase
  · obtain ⟨u, hu, huplain, -⟩ := hput.isPlain hplain
    obtain ⟨w, hw, hreads, -⟩ := hu.stands hc hm
    have hparen := not_mem_paren_of_isWord (huplain w hw)
    exact ⟨hu.transition, .inl (hv.stays hreads hparen)⟩
  · rcases hrules r hbase with htame | hdeclarator
    · exact CompiledRule.stays_of_isTame htame hc hv hm
    · obtain ⟨-, -, hstart, -⟩ := CompiledRule.runs_of_isDeclarator hdeclarator hc hm
      obtain ⟨b, hb, hne⟩ := hline
      rw [hb] at hstart
      simp [hne] at hstart

/-- Inside of a line an extended state crosses a run and its parenthesis. -/
theorem Extends.crosses_run (h : x.Extends g g') (hplain : ∀ e ∈ x.rules, e.vocabulary.IsPlain)
    (hrules : ∀ r ∈ g.rules state, r.isTame = true ∨ r.isDeclarator = true)
    (hv : Route.Runs c v e) (hc : c.Placed) (hline : c.InLine) : g'.Crosses state c e := by
  -- on the length of what is left of the run, because a rule may take several characters
  induction hlen : v.length using Nat.strongRecOn generalizing c v with
  | ind n ih =>
    subst hlen
    cases hm : g'.firstMatch? state c with
    | none =>
      cases v with
      | nil =>
        obtain ⟨rest, hahead, hd⟩ := hv.1
        obtain rfl := Cursor.reads_nil.1 hd
        exact .unmatched hm hahead (.refl _)
      | cons y v =>
        obtain ⟨rest, hahead, -⟩ := hv.1
        have hy := Cursor.reads_past hahead
        have hlt : v.length < (y :: v).length := Nat.lt_succ_self _
        have hline' := hv.inLine (u := [y]) hy (List.cons_ne_nil y [])
        exact .unmatched hm hahead
          (ih _ hlt (hv.past (u := [y]) hy) (hy.placed hc) hline' rfl)
    | some found =>
      obtain ⟨r, m⟩ := found
      obtain ⟨hmem, hmatch⟩ := Grammar.mem_of_firstMatch? hm
      obtain ⟨hstay, hend⟩ := h.stays_run hplain hrules hv hc hline hmem hmatch
      refine .matched hm hstay ?_
      rcases hend with ⟨u, v, rfl, hd⟩ | ⟨-, hstop⟩
      · have hu : u ≠ [] := hd.ne_nil (Grammar.firstMatch?_inside hc hm).advances
        have hlt : v.length < (u ++ v).length := by
          have := List.length_pos_iff.2 hu
          rw [List.length_append]
          omega
        exact ih _ hlt (hv.past hd) (hd.placed hc) (hv.inLine hd hu) rfl
      · rw [hstop]
        exact .refl e

end Extension

end Highlighting
