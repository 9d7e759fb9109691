import Highlighting.Proofs.Grammar.References
import Highlighting.Proofs.Pattern.Unwrapping
import Highlighting.Proofs.Scan.InContext

/-!
# Matches begin at the cursor

What a rule of a built grammar matches is the text from the cursor to the end of the match, and that
is one match of the declared pattern, as long as the declared pattern is read to its end by itself.
That is what building fails to check for some patterns: one that closes the group that is put around
it is accepted, and the rest of it is not bound to the cursor (`Definition.build_anchors`,
`Definition.build_strays`).
-/

namespace Highlighting

namespace CompiledRule

variable {r : CompiledRule} {c : Cursor} {m : RuleMatch} {pattern : String}

/-- If the declared pattern is read to its end by itself, a match of the rule is one of it. -/
theorem matchAt?_leads {s : Pattern.Partial} (hread : Pattern.ReadsWhole pattern.toList s)
    (hstart : Matcher.parse (startText pattern) = .ok r.atStart)
    (hcontext : Matcher.parse (contextText pattern) = .ok r.inContext) (hc : c.Placed)
    (hm : r.matchAt? c = some m) :
    c.offset < m.stop.offset ∧ (Matcher.ofRead s.read).route.Leads c m.stop := by
  rw [matchAt?_eq_of_readsWhole hread hstart hcontext hc] at hm
  obtain ⟨caps, hfound, hlt, -⟩ := nonempty?_eq_some.1 hm
  exact ⟨hlt, (Matcher.matchFrom?_sound hfound).leads⟩

end CompiledRule

namespace Definition

/-- The declared pattern of a rule of a built grammar is read to its end by itself, unless it closes
the group that is put around it.  If it is, every match of the rule is the text from the cursor to
the end of the match, which is not empty and is one match of the declared pattern there. -/
theorem build_anchors {d : Definition} {g : Grammar} (hbuild : d.build.value = .ok g) {state : Nat}
    {r : CompiledRule} (hr : r ∈ g.rules state) :
    (Pattern.Overcloses r.source.toList ↔ ∀ s, ¬ Pattern.ReadsWhole r.source.toList s) ∧
    ∀ s, Pattern.ReadsWhole r.source.toList s → ∀ (text : String) (c : Cursor),
      (Cursor.start text.toList 0).Reaches c → ∀ m, r.matchAt? c = some m →
        c.offset < m.stop.offset ∧ (Matcher.ofRead s.read).route.Leads c m.stop := by
  rw [build_eq_compile] at hbuild
  obtain ⟨-, -, rule, -, hrule⟩ := exists_compilesTo hbuild hr
  have hstart := hrule.atStart
  have hcontext := hrule.inContext
  rw [← hrule.source] at hstart hcontext
  obtain ⟨read, hread, -⟩ := Except.map_eq_ok hstart
  refine ⟨Pattern.overcloses_iff hread, fun s hs text c hc m hm => ?_⟩
  have hplaced : c.Placed := hc.placed (Cursor.placed_start text.toList 0)
  exact CompiledRule.matchAt?_leads hs hstart hcontext hplaced hm

/-- One state with one rule, which makes a name of each match of a pattern. -/
def oneRule (pattern : String) : Definition :=
  ⟨"names", [(rootState, [.rule (.token pattern .name)])]⟩

/-- What the only rule of such a definition finds in a text behind its first characters. -/
def foundBehind (pattern : String) (before ahead : List Char) : Option (Option RuleMatch) :=
  (oneRule pattern).build.value.toOption.bind fun g => (g.rules 0).head?.bind fun r =>
    if r.source = pattern then
      some (r.matchAt? ⟨before.getLast?, ahead, byteSize before⟩)
    else none

theorem exists_of_foundBehind {pattern : String} {before ahead : List Char}
    {found : Option RuleMatch} (h : foundBehind pattern before ahead = some found) :
    ∃ g r, (oneRule pattern).build.value = .ok g ∧ r ∈ g.rules 0 ∧ r.source = pattern ∧
      r.matchAt? ⟨before.getLast?, ahead, byteSize before⟩ = found := by
  obtain ⟨g, hg, h⟩ := Option.bind_eq_some_iff.1 h
  obtain ⟨r, hr, h⟩ := Option.bind_eq_some_iff.1 h
  split at h
  · next hsource =>
    exact ⟨g, r, Except.eq_ok_of_toOption hg, List.mem_of_head? hr, hsource, Option.some.inj h⟩
  · cases h

/-- The pattern of one or more letters a before a letter b, behind an x. -/
theorem build_anchors_plus : ∃ g r s, (oneRule "a+b").build.value = .ok g ∧ r ∈ g.rules 0 ∧
    Pattern.ReadsWhole r.source.toList s ∧
    r.matchAt? ⟨some 'x', ['a', 'a', 'b'], 1⟩ = some ⟨⟨some 'b', [], 4⟩, []⟩ ∧
    (Matcher.ofRead s.read).route.Leads ⟨some 'x', ['a', 'a', 'b'], 1⟩ ⟨some 'b', [], 4⟩ := by
  have h : foundBehind "a+b" ['x'] ['a', 'a', 'b'] = some (some ⟨⟨some 'b', [], 4⟩, []⟩) := by
    decide +kernel
  obtain ⟨g, r, hg, hr, hsource, hm⟩ := exists_of_foundBehind h
  have hparse : (Pattern.parse r.source.toList).toOption.isSome = true := by
    rw [hsource]
    decide +kernel
  obtain ⟨read, hread⟩ := Option.isSome_iff_exists.1 hparse
  have hread := Except.eq_ok_of_toOption hread
  obtain ⟨s, hs, -⟩ := Pattern.exists_readsWhole hread
  have hc : (Cursor.start "xaab".toList 0).Reaches ⟨some 'x', ['a', 'a', 'b'], 1⟩ :=
    ⟨['x'], _, rfl, rfl⟩
  obtain ⟨-, hleads⟩ := (build_anchors hg hr).2 s hs "xaab" _ hc _ hm
  exact ⟨g, r, s, hg, hr, hs, hm, hleads⟩

/-- A pattern that closes the group around it is accepted, though it is none by itself.  Its rule
matches two characters at the start of a text, of which it searches the second only. -/
theorem build_strays : ∃ g r, (oneRule "a)|(?:b").build.value = .ok g ∧ r ∈ g.rules 0 ∧
    r.source = "a)|(?:b" ∧ Pattern.parse "a)|(?:b".toList = .error .unopenedGroup ∧
    r.matchAt? (Cursor.start ['x', 'b'] 0) = some ⟨⟨some 'b', [], 2⟩, []⟩ := by
  have h : foundBehind "a)|(?:b" [] ['x', 'b'] = some (some ⟨⟨some 'b', [], 2⟩, []⟩) := by
    decide +kernel
  obtain ⟨g, r, hg, hr, hsource, hm⟩ := exists_of_foundBehind h
  exact ⟨g, r, hg, hr, hsource, by decide +kernel, hm⟩

end Definition

end Highlighting
