import Highlighting.Proofs.Language.ComputedRules
import Highlighting.Proofs.Language.Tables

/-!
# Continued preprocessor lines

A backslash in front of a line break continues a preprocessor line: the step that reads the
backslash reads the line break, too, and the scan stays in the line.  There are two exceptions
(`CFamily.ReadsBackslash.continues`): a comment up to the end of the line takes the backslash alone,
and so does an escape of a backslash by another one; behind these the line break ends the line
(`CFamily.ends_of_break`).
-/

namespace Highlighting

namespace CFamily

variable {s : Scanner} {x y z : Scanner.Point} {source u v w brk rest : List Char}

/-- A scan is in a preprocessor line. -/
def InDirective (s : Scanner) (x : Scanner.Point) : Prop :=
  s.grammar.stateName? x.top = some "macro"

/-- A step in a preprocessor line reads a backslash behind which there is a line break. -/
structure ReadsBackslash (s : Scanner) (x y : Scanner.Point) (v w brk : List Char) : Prop where
  inDirective : InDirective s x
  next : s.next? x = some y
  reads : x.cursor.Reads (v ++ '\\' :: w) y.cursor
  isBreak : brk ∈ lineBreaks
  isPrefix : brk <+: w ++ y.cursor.ahead

/-- A step in a preprocessor line takes a match. -/
theorem exists_taken (hk : KeepsStacks s.grammar) (hlies : x.Lies source) (hin : InDirective s x)
    (hy : s.next? x = some y) : ∃ r m, s.taken? x = some (r, m) ∧ y.cursor = m.stop ∧
      ∃ p, y.stack = (s.follow r.transition x.stack p).1 := by
  rcases Scanner.next?_eq_some hy with ⟨r, m, htaken, rfl⟩ | ⟨hopen, hnone, -⟩
  · exact ⟨r, m, htaken, rfl, _, rfl⟩
  · have hsome := taken?_ne_none hk hlies (by decide) hin hopen
    rw [Scanner.taken?, if_pos hopen] at hsome
    exact absurd hnone hsome

theorem rule_of_keepsLines (hlines : keepsLines s.grammar = true) (hin : InDirective s x)
    {r : CompiledRule} {m : RuleMatch} (htaken : s.taken? x = some (r, m)) :
    leavesLine r = true ∧ keepsEscapes r = true :=
  Bool.and_eq_true_iff.1 (List.all_eq_true.1 (Grammar.of_passIn hlines hin) r
    (Scanner.mem_rules_of_taken? htaken))

/-- A step in a preprocessor line reads a line feed and leaves the line, or it begins with something
else and stays in the line. -/
theorem next_inDirective (hk : KeepsStacks s.grammar) (hlines : keepsLines s.grammar = true)
    (hx : s.Visits source x) (hin : InDirective s x) (hy : s.next? x = some y)
    (hu : x.cursor.Reads u y.cursor) :
    (u = ['\n'] ∧ y.stack.map s.grammar.stateName? = [some rootState]) ∨
      (y.stack = x.stack ∧ u.head? ≠ some '\n' ∧ (u.head? = some '\r' → '\n' ∉ u)) := by
  obtain ⟨r, m, htaken, hcursor, p, hstack⟩ := exists_taken hk hx.lies hin hy
  rw [hcursor] at hu
  rcases transition_of_leavesLine (rule_of_keepsLines hlines hin htaken).1 hx.lies.placed
    (Scanner.matchAt?_of_taken? htaken) hu with ⟨hpop, hfeed⟩ | ⟨hstay, hhead⟩
  · rw [hpop] at hstack
    exact .inl ⟨hfeed, hstack ▸ (visits_isShaped hk hx).follow_pop_line (by decide) hin p⟩
  · rw [hstay] at hstack
    exact .inr ⟨hstack, hhead⟩

/-- A line break that no step has taken yet ends a preprocessor line. -/
theorem ends_of_break (hk : KeepsStacks s.grammar) (hlines : keepsLines s.grammar = true)
    (hx : s.Visits source x) (hin : InDirective s x) (hbrk : brk ∈ lineBreaks) (hz : s.Steps x z)
    (hread : x.cursor.Reads brk z.cursor) :
    z.stack.map s.grammar.stateName? = [some rootState] := by
  -- at a line feed a step leaves the line
  have hfeed : ∀ {x}, s.Visits source x → InDirective s x → s.Steps x z →
      x.cursor.Reads ['\n'] z.cursor → z.stack.map s.grammar.stateName? = [some rootState] := by
    intro x hx hin hz hread
    obtain ⟨y, v, w, hy, -, hv, hsplit, hreads, -, hend⟩ :=
      hz.exists_next hx.lies hread (List.cons_ne_nil _ _)
    obtain ⟨rfl, rfl⟩ : v = ['\n'] ∧ w = [] := by
      rcases List.singleton_eq_append_iff.1 hsplit with ⟨rfl, -⟩ | h
      · exact absurd rfl hv
      · exact h
    rcases next_inDirective hk hlines hx hin hy hreads with ⟨-, hroot⟩ | ⟨-, hhead, -⟩
    · exact hend rfl ▸ hroot
    · exact absurd rfl hhead
  simp only [lineBreaks, List.mem_cons, List.not_mem_nil, or_false] at hbrk
  rcases hbrk with rfl | rfl
  · exact hfeed hx hin hz hread
  · obtain ⟨y, v, w, hy, hsteps, hv, hsplit, hreads, hreads', -⟩ :=
      hz.exists_next hx.lies hread (List.cons_ne_nil _ _)
    obtain ⟨x', v, rfl⟩ := List.exists_cons_of_ne_nil hv
    obtain ⟨rfl, htail⟩ : '\r' = x' ∧ ['\n'] = v ++ w := List.cons.inj hsplit
    rcases next_inDirective hk hlines hx hin hy hreads with ⟨hother, -⟩ | ⟨hsame, -, hno⟩
    · exact absurd (List.cons.inj hother).1 (by decide)
    · obtain ⟨rfl, rfl⟩ : v = [] ∧ w = ['\n'] := by
        rcases List.singleton_eq_append_iff.1 htail with h | ⟨rfl, -⟩
        · exact h
        · exact absurd (by simp) (hno rfl)
      refine hfeed (hx.tail (.next hy)) ?_ hsteps hreads'
      rwa [InDirective, Scanner.Point.top, hsame]

/-- A backslash in front of a line break continues a preprocessor line: the line break is read with
it, and the scan stays in the line.  The exceptions are a backslash in a comment up to the end of the
line and one that is escaped by another; behind these the line break ends the line. -/
theorem ReadsBackslash.continues {l : Lexer} (hl : IsLexer l) (hs : s.grammar = l.grammar)
    (hx : s.Visits source x) (h : ReadsBackslash s x y v w brk) :
    y.stack = x.stack ∧ (brk <+: w ∨
      ((['/', '/'] <+: v ∧ '\n' ∉ v ++ w ∨ v = ['\\'] ∧ w = []) ∧
        ∃ rest, w ++ rest = brk ∧ ∀ z, s.Steps y z → y.cursor.Reads rest z.cursor →
          z.stack.map s.grammar.stateName? = [some rootState])) := by
  have hk : KeepsStacks s.grammar := hs ▸ hl.keepsStacks
  have hlines : keepsLines s.grammar = true := hs ▸ hl.keepsLines
  have hstack : y.stack = x.stack := by
    rcases next_inDirective hk hlines hx h.inDirective h.next h.reads with ⟨hfeed, -⟩ | ⟨hsame, -⟩
    · have hmem : '\\' ∈ ['\n'] := by rw [← hfeed]; simp
      exact absurd hmem (by decide)
    · exact hsame
  have hvisits : s.Visits source y := hx.tail (.next h.next)
  have hin : InDirective s y := by
    rw [InDirective, Scanner.Point.top, hstack]
    exact h.inDirective
  refine ⟨hstack, ?_⟩
  obtain ⟨r, m, htaken, hcursor, -⟩ := exists_taken hk hx.lies h.inDirective h.next
  have hreads := h.reads
  have hahead := h.isPrefix
  rw [hcursor] at hreads hahead
  rcases escapes_of_keepsEscapes (rule_of_keepsLines hlines h.inDirective htaken).2 hx.lies.placed
    (Scanner.matchAt?_of_taken? htaken) hreads h.isBreak hahead with
      hread | ⟨hcomment, hfeed, hrest⟩ | ⟨rfl, rfl⟩
  · exact .inl hread
  · exact .inr ⟨.inl ⟨hcomment, hfeed⟩, ['\n'], hrest, fun z hz hread =>
      ends_of_break hk hlines hvisits hin (by decide) hz hread⟩
  · exact .inr ⟨.inr ⟨rfl, rfl⟩, brk, rfl, fun z hz hread =>
      ends_of_break hk hlines hvisits hin h.isBreak hz hread⟩

/-! ### Lines that are continued and lines that are not -/

/-- Behind each line break that a backslash stands in front of, a scan is still in the preprocessor
line that it was in at the backslash. -/
def ContinuesLines (s : Scanner) (source : List Char) : Prop :=
  ∀ x y z v w brk rest, s.Visits source x → ReadsBackslash s x y v w brk → w ++ rest = brk →
    s.Steps y z → y.cursor.Reads rest z.cursor → InDirective s z

/-- Whether after some steps a scan reads a backslash and then, with or without one more step, the
line break behind it, and whether it is then in the line. -/
def comesTo (s : Scanner) (source : List Char) (n more : Nat) (v w rest : List Char)
    (state : String) : Bool :=
  (s.after? n (s.origin source)).any fun x =>
    (s.next? x).any fun y =>
      (s.after? more y).any fun z =>
        s.grammar.stateName? x.top == some "macro" &&
          x.cursor.ahead == v ++ '\\' :: (w ++ y.cursor.ahead) &&
          y.cursor.ahead == rest ++ z.cursor.ahead &&
          s.grammar.stateName? z.top == some state

theorem exists_of_comesTo {n more : Nat} {state : String}
    (h : comesTo s source n more v w rest state = true) (hbrk : w ++ rest ∈ lineBreaks) :
    ∃ x y z, s.Visits source x ∧ ReadsBackslash s x y v w (w ++ rest) ∧ s.Steps y z ∧
      y.cursor.Reads rest z.cursor ∧ s.grammar.stateName? z.top = some state := by
  obtain ⟨x, hx, h⟩ := (Option.any_eq_true _ _).1 h
  obtain ⟨y, hy, h⟩ := (Option.any_eq_true _ _).1 h
  obtain ⟨z, hz, h⟩ := (Option.any_eq_true _ _).1 h
  simp only [Bool.and_eq_true, beq_iff_eq] at h
  obtain ⟨⟨⟨hin, hahead⟩, hahead'⟩, hstate⟩ := h
  have hvisits : s.Visits source x := (Scanner.steps_of_after? hx).visits .refl
  obtain ⟨hlies, -, -, -, -, u, -, hu⟩ := hvisits.lies.next hy
  have hsteps := Scanner.steps_of_after? hz
  obtain rfl : u = v ++ '\\' :: w := by
    rw [hu.ahead] at hahead
    exact List.append_cancel_right (hahead.trans (by simp))
  have hrest : y.cursor.Reads rest z.cursor := by
    rcases hsteps.reads hlies with rfl | ⟨u, -, hread⟩
    · obtain rfl : rest = [] :=
        List.append_cancel_right (hahead'.symm.trans (List.nil_append _).symm)
      exact .refl _
    · rw [hread.ahead] at hahead'
      exact List.append_cancel_right hahead' ▸ hread
  refine ⟨x, y, z, hvisits, ⟨hin, hy, hu, hbrk, ?_⟩, hsteps, hrest, hstate⟩
  exact ⟨z.cursor.ahead, by rw [hahead', List.append_assoc]⟩

theorem lines_computed : ((tabledGrammar cTag .c).compileQuickly? []).any (fun g =>
    let s : Scanner := ⟨g, Limits.maxTokens, false⟩
    comesTo s "#define A \\\n1\n".toList 2 0 [] ['\n'] [] "macro" &&
    comesTo s "#define A // x\\\nint y;\n".toList 2 1 "// x".toList [] ['\n'] rootState &&
    comesTo s "#define A \\\\\nint y;\n".toList 2 1 ['\\'] [] ['\n'] rootState) = true := by
  decide +kernel

/-- A line that is continued, and one that ends behind a comment. -/
theorem ReadsBackslash.continues_define : ∃ l : Lexer, cLexer.value = .ok l ∧
    let s : Scanner := ⟨l.grammar, Limits.maxTokens, false⟩
    (∃ x y, s.Visits "#define A \\\n1\n".toList x ∧ ReadsBackslash s x y [] ['\n'] ['\n'] ∧
      y.stack = x.stack) ∧
    ∃ x y z, s.Visits "#define A // x\\\nint y;\n".toList x ∧
      ReadsBackslash s x y "// x".toList [] ['\n'] ∧ s.Steps y z ∧
      z.stack.map s.grammar.stateName? = [some rootState] := by
  obtain ⟨g, hg, hcomputed⟩ := (Option.any_eq_true _ _).1 lines_computed
  simp only [Bool.and_eq_true] at hcomputed
  obtain ⟨⟨hcontinued, hcomment⟩, -⟩ := hcomputed
  have hvalue := cLexer_value hg
  obtain ⟨x, y, -, hx, hreads, -⟩ := exists_of_comesTo hcontinued (by decide)
  obtain ⟨x', y', z', hx', hreads', hz', hrest, -⟩ := exists_of_comesTo hcomment (by decide)
  refine ⟨_, hvalue, ⟨x, y, hx, hreads, (hreads.continues (.c hvalue) rfl hx).1⟩,
    x', y', z', hx', hreads', hz', ?_⟩
  rcases (hreads'.continues (.c hvalue) rfl hx').2 with hread | ⟨-, rest, hsplit, hends⟩
  · exact absurd hread (by decide)
  · obtain rfl : rest = ['\n'] := hsplit
    exact hends z' hz' hrest

theorem not_continuesLines_of_comesTo {n more : Nat} (hbrk : w ++ rest ∈ lineBreaks)
    (h : comesTo s source n more v w rest rootState = true) : ¬ ContinuesLines s source := by
  intro hcontinues
  obtain ⟨x, y, z, hx, hreads, hz, hrest, hroot⟩ := exists_of_comesTo h hbrk
  have hin := hcontinues x y z v w _ rest hx hreads rfl hz hrest
  exact absurd (hroot.symm.trans hin) (by decide)

/-- A comment and an escaped backslash do not continue their lines. -/
theorem not_continuesLines : ∃ l : Lexer, cLexer.value = .ok l ∧
    ¬ ContinuesLines ⟨l.grammar, Limits.maxTokens, false⟩ "#define A // x\\\nint y;\n".toList ∧
    ¬ ContinuesLines ⟨l.grammar, Limits.maxTokens, false⟩ "#define A \\\\\nint y;\n".toList := by
  obtain ⟨g, hg, hcomputed⟩ := (Option.any_eq_true _ _).1 lines_computed
  simp only [Bool.and_eq_true] at hcomputed
  obtain ⟨⟨-, hcomment⟩, hescaped⟩ := hcomputed
  exact ⟨_, cLexer_value hg, not_continuesLines_of_comesTo (by decide) hcomment,
    not_continuesLines_of_comesTo (by decide) hescaped⟩

end CFamily

end Highlighting
