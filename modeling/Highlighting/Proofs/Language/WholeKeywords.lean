import Highlighting.Proofs.Language.ComputedRules
import Highlighting.Proofs.Language.EngineCategories
import Highlighting.Proofs.Scan.Origins
import Highlighting.Proofs.Scan.WholeWords

/-!
# Keywords are whole words

A keyword is not followed by a word character, nor does it follow one, unless the token in front of
it is a number or a single character that no rule takes (`CFamily.tokenize_keywords_whole`).

The rules that make keywords look to where a word ends, but most of them do not look to where it
begins, so they rely on where the scan stands: in code each rule but those of numbers reads up to
the end of a word, if it reads any (`CFamily.standsFree_of_visits`).  What is scanned anew for a
group of a match begins at the start of a line and ends with no word character
(`CFamily.isClear_of_visits`), so no word of the source goes on over its edges.
-/

namespace Highlighting

namespace CFamily

variable {s : Scanner} {x y : Scanner.Point} {source : List Char} {t : RawToken}

/-- A token is a number, or one character that is no ASCII character and that no rule takes. -/
def BreaksWord (source : List Char) (t : RawToken) : Prop :=
  t.category.isWithin .number = true ∨
    (t.category = .text ∧ ∃ ch, isWordChar ch = true ∧ 128 ≤ ch.toNat ∧ t.Spells source [ch])

/-- At a point a scan is not inside of a word, but for words that a token in front of the point
breaks. -/
def StandsFree (source : List Char) (x : Scanner.Point) : Prop :=
  ¬ x.cursor.InWord ∨
    ∃ u ∈ x.progress.tokens, u.stop = x.cursor.offset ∧ BreaksWord source u

/-- The text of the scan of a group is no part of a longer word. -/
structure IsClear (source : List Char) (x : Scanner.Point) : Prop where
  start : 0 < x.depth → isWordSide (takeBytes x.base source).getLast? = false
  stop : 0 < x.depth → isWordSide x.text.getLast? = false

/-! ### Where scans stand -/

/-- What a number leaves behind breaks a word. -/
theorem standsFree_of_makesNumber {r : CompiledRule} {m : RuleMatch} (hlies : x.Lies source)
    (htaken : s.taken? x = some (r, m)) (hr : makesNumber r = true)
    (hy : s.next? x = some y) : StandsFree source y := by
  obtain ⟨category, haction, hnumber⟩ : ∃ category, r.action = .token category ∧
      category.isWithin .number = true := by
    unfold makesNumber at hr
    split at hr
    · next category haction => exact ⟨category, haction, hr⟩
    · cases hr
  obtain rfl := Option.some.inj (hy.symm.trans (Scanner.next?_of_taken? htaken))
  refine .inr ⟨⟨category, x.cursor.offset, m.stop.offset⟩, ?_, rfl, .inl hnumber⟩
  dsimp only
  rw [Scanner.tokens_follow, Scanner.emit, haction]
  simp [Progress.push, (hlies.inside htaken).advances]

/-- In code a character that no rule takes is no ASCII word character, so behind it no word goes on,
or it breaks one. -/
theorem standsFree_of_unmatched (hg : KeepsKeywords s.grammar) (hlies : x.Lies source)
    {name : String} (hname : s.grammar.stateName? x.top = some name) (hcode : name ∈ codeStates)
    (hnone : s.grammar.firstMatch? x.top x.cursor = none) {ch : Char} {rest : List Char}
    (hahead : x.cursor.ahead = ch :: rest) :
    StandsFree source { x with
      cursor := x.cursor.past ch rest
      progress := s.unmatched x.top x.cursor ch x.progress } := by
  have hread := Cursor.reads_past hahead
  by_cases hword : isWordChar ch = true
  · have hwide : 128 ≤ ch.toNat := by
      by_contra hascii
      obtain ⟨r, hr, htakes⟩ := hg.takes _ name hname hcode ch hword (Nat.lt_of_not_le hascii)
      obtain ⟨m, hm⟩ := CompiledRule.exists_match_of_surelyTakes htakes hlies.placed hread
      have hmiss := List.findSome?_eq_none_iff.1 hnone r hr
      rw [hm] at hmiss
      cases hmiss
    have hspells := hlies.standsIn.liesIn.spells hread .text
    refine .inr ⟨⟨.text, x.cursor.offset, (x.cursor.past ch rest).offset⟩, ?_, rfl,
      .inr ⟨rfl, ch, hword, hwide, hspells⟩⟩
    have hpos := ch.utf8Size_pos
    dsimp only
    rw [Scanner.tokens_unmatched]
    simp [Progress.push, hpos]
  · refine .inl fun hin => hword ?_
    have hbefore := hin.1
    rwa [Cursor.before_past] at hbefore

/-- A step that comes to code leaves the scan standing free. -/
theorem standsFree_next (hg : KeepsKeywords s.grammar) (hlies : x.Lies source)
    (hy : s.next? x = some y) {name : String} (hcode : name ∈ codeStates)
    (hname : s.grammar.stateName? y.top = some name) : StandsFree source y := by
  rcases Scanner.next?_eq_some hy with ⟨r, m, htaken, rfl⟩ | ⟨-, hnone, ch, rest, hahead, rfl⟩
  · have hr := Scanner.mem_rules_of_taken? htaken
    have hm := Scanner.matchAt?_of_taken? htaken
    obtain ⟨name', hname'⟩ := s.grammar.exists_stateName?_of_mem_rules hr
    by_cases hcode' : name' ∈ codeStates
    · rcases hg.settles _ name' hname' hcode' r hr with hsettles | hnumber
      · exact .inl (CompiledRule.not_inWord_of_settles hsettles hlies.placed hm)
      · exact standsFree_of_makesNumber hlies htaken hnumber hy
    · rcases hg.leaves _ name' hname' hcode' r hr with hstay | hsettles
      · -- the state on top is the same, and it is none of code
        rw [Scanner.Point.top, hstay] at hname
        obtain rfl := Option.some.inj (hname'.symm.trans hname)
        exact absurd hcode hcode'
      · exact .inl (CompiledRule.not_inWord_of_settles hsettles hlies.placed hm)
  · exact standsFree_of_unmatched hg hlies hname hcode hnone hahead

/-- In code a run stands free at each point. -/
theorem standsFree_of_visits (hg : KeepsKeywords s.grammar) (hx : s.Visits source x) {name : String}
    (hcode : name ∈ codeStates) (hname : s.grammar.stateName? x.top = some name) :
    StandsFree source x := by
  cases hx with
  | refl => exact .inl fun hin => Bool.false_ne_true hin.1
  | tail hz hgoes =>
    cases hgoes with
    | next hy => exact standsFree_next hg (Scanner.Visits.lies hz) hy hcode hname
    | inner hy =>
      obtain ⟨-, r, m, before, part, after, state, -, -, -, rfl⟩ := Scanner.mem_inner hy
      exact .inl fun hin => Bool.false_ne_true hin.1

/-- What is scanned anew is no part of a longer word: it begins at the start of a line, or where a
text begins that is scanned anew itself. -/
theorem isClear_of_inner (hg : KeepsKeywords s.grammar) (hx : s.Visits source x)
    (hclear : IsClear source x) (hy : y ∈ s.inner x) : IsClear source y := by
  obtain ⟨-, r, m, before, part, after, state, hstate, htaken, hparts, rfl⟩ := Scanner.mem_inner hy
  have hr := Scanner.mem_rules_of_taken? htaken
  have hpart : part ∈ r.parts x.cursor m := by simp [hparts]
  obtain ⟨name, hname⟩ := s.grammar.exists_stateName?_of_mem_rules hr
  by_cases hcode : name ∈ codeStates
  · obtain ⟨hstart, hbefore, hstop⟩ := CompiledRule.edges_of_makesKeywords
      (hg.makes _ name hname hcode r hr) hx.lies.placed (Scanner.matchAt?_of_taken? htaken) hpart
      hstate
    refine ⟨fun _ => ?_, fun _ => hstop⟩
    dsimp only [Scanner.Point.start]
    rw [hstart]
    rcases hx.before_eq with heq | ⟨hdepth, hbase⟩
    · rwa [← heq]
    · rw [hbase]
      exact hclear.start hdepth
  · have hfree := hg.free _ name hname hcode r hr
    have hmem := CompiledRule.states_of_mem_parts hpart state hstate
    rw [CompiledRule.states_of_isKeywordFree hfree] at hmem
    cases hmem

theorem isClear_of_visits (hg : KeepsKeywords s.grammar) (hx : s.Visits source x) :
    IsClear source x := by
  induction hx with
  | refl => exact ⟨fun h => absurd h (Nat.lt_irrefl _), fun h => absurd h (Nat.lt_irrefl _)⟩
  | tail hz hgoes ih =>
    cases hgoes with
    | next hy =>
      obtain ⟨-, hdepth, -, htext, hbase, -⟩ := (Scanner.Visits.lies hz).next hy
      exact ⟨fun h => hbase ▸ ih.start (hdepth ▸ h), fun h => htext ▸ ih.stop (hdepth ▸ h)⟩
    | inner hy => exact isClear_of_inner hg hz ih hy

/-! ### What stands around a place -/

section Around

variable {v w : List Char} {c e : Cursor}

/-- What a scan knows to be no word character before a place is none in the source. -/
theorem isWordSide_before (hx : s.Visits source x) (hclear : IsClear source x)
    (hv : x.cursor.Reads v c) (hbefore : isWordSide c.before = false) :
    isWordSide (takeBytes c.offset source).getLast? = false := by
  cases hb : c.before with
  | some b =>
    rw [(hx.lies.standsIn.reads hv).before b hb]
    rwa [hb] at hbefore
  | none =>
    have hnil : v = [] := by
      have hlast := hv.before
      rw [hb] at hlast
      exact List.getLast?_eq_none_iff.1 (Option.or_eq_none_iff.1 hlast.symm).1
    subst hnil
    obtain rfl := Cursor.reads_nil.1 hv
    rcases hx.before_eq with heq | ⟨hdepth, hbase⟩
    · rwa [← heq]
    · rw [hbase]
      exact hclear.start hdepth

/-- Behind a word, what a scan knows to be no word character is none in the source. -/
theorem isWordSide_behind (hx : s.Visits source x) (hclear : IsClear source x)
    (hv : x.cursor.Reads v c) (hw : c.Reads w e) (hword : isWordText w = true)
    (hhead : isWordSide e.ahead.head? = false) :
    isWordSide (dropBytes e.offset source).head? = false := by
  rcases hx.head?_eq (hv.trans hw) with heq | ⟨hdepth, hoffset⟩
  · rwa [← heq]
  · -- the word would be at the end of a text that ends with no word character
    obtain ⟨u, hu⟩ := hx.lies.cursor
    have hread := (hu.trans hv).trans hw
    have hend := hread.reaches.end_eq
    have hnil : e.ahead = [] := by
      by_contra hne
      have := byteSize_pos hne
      dsimp only [Cursor.start] at hend
      omega
    have htext : x.text = (u ++ v) ++ w := by
      have hahead := hread.ahead
      rwa [hnil, List.append_nil] at hahead
    have hlast := isWordSide_getLast? hword
    have hstop := hclear.stop hdepth
    have hne : w ≠ [] := by
      rintro rfl
      cases hword
    rw [htext, List.getLast?_append_of_ne_nil _ hne, hlast] at hstop
    cases hstop

end Around

/-! ### Keywords -/

/-- A keyword that is made at a point is a whole word of the source, unless the token in front of
it breaks the word. -/
theorem whole_of_makes (hg : KeepsKeywords s.grammar) (hx : s.Visits source x) (ht : s.Makes x t)
    (hkeyword : t.category.isWithin .keyword = true) :
    isWordSide (dropBytes t.stop source).head? = false ∧
      (isWordSide (takeBytes t.start source).getLast? = false ∨
        ∃ u ∈ x.progress.tokens, u.stop = t.start ∧ BreaksWord source u) := by
  obtain ⟨r, m, part, htaken, hpart, hlt, hcategory, htstart, htstop⟩ := ht
  have hr := Scanner.mem_rules_of_taken? htaken
  have hm := Scanner.matchAt?_of_taken? htaken
  obtain ⟨name, hname⟩ := s.grammar.exists_stateName?_of_mem_rules hr
  by_cases hcode : name ∈ codeStates
  · obtain ⟨v, w, y, e, hv, hw, hstart, hstop, hword, hhead, hy⟩ :=
      CompiledRule.wholly_of_makesKeywords (hg.makes _ name hname hcode r hr) hx.lies.placed hm
        hpart hlt hcategory hkeyword
    have hclear := isClear_of_visits hg hx
    rw [← htstart, ← htstop, hstart, hstop]
    refine ⟨isWordSide_behind hx hclear hv hw hword hhead, ?_⟩
    rcases hy with rfl | hbefore
    · rcases standsFree_of_visits hg hx hcode hname with hout | hbroken
      · exact .inl (isWordSide_before hx hclear hv (hw.starts hword hout))
      · exact .inr hbroken
    · exact .inl (isWordSide_before hx hclear hv hbefore)
  · have hfree := hg.free _ name hname hcode r hr
    have hnot := CompiledRule.isWithin_of_isKeywordFree hfree hpart hcategory
    exact absurd (hnot.symm.trans hkeyword) Bool.false_ne_true

/-- A keyword of a run is a whole word of the source, unless the token in front of it breaks the
word. -/
theorem whole_of_mem_run (hg : KeepsKeywords s.grammar) (ht : t ∈ (s.run source).tokens)
    (hkeyword : t.category.isWithin .keyword = true) :
    isWordSide (dropBytes t.stop source).head? = false ∧
      (isWordSide (takeBytes t.start source).getLast? = false ∨
        ∃ u ∈ (s.run source).tokens, u.stop = t.start ∧ BreaksWord source u) := by
  have htext : t.category ≠ .text := by
    intro htext
    rw [htext] at hkeyword
    exact absurd hkeyword (by decide)
  obtain ⟨x, hx, hmakes⟩ := Scanner.exists_makes_of_mem_run ht htext
  refine (whole_of_makes hg hx hmakes hkeyword).imp_right (Or.imp_right ?_)
  rintro ⟨u, hu, hstop, hbreaks⟩
  exact ⟨u, hx.mem_run_of_mem hu, hstop, hbreaks⟩

/-! ### Keywords of sources -/

/-- A token of a source breaks a word that goes on behind it. -/
def SplitsWord (u : Token) : Prop :=
  u.category.isWithin .number = true ∨
    (u.category = .text ∧ ∃ ch, u.text = String.ofList [ch] ∧ isWordChar ch = true ∧
      128 ≤ ch.toNat)

theorem BreaksWord.splitsWord {w : List Char} (h : BreaksWord source t) (hw : t.Spells source w) :
    SplitsWord (t.resolve source) := by
  rcases h with hnumber | ⟨htext, ch, hword, hwide, hspells⟩
  · exact .inl hnumber
  · obtain rfl := hspells.unique hw
    exact .inr ⟨htext, ch, hw.resolve_eq.1, hword, hwide⟩

/-- A keyword is a whole word of its source, unless the token in front of it is a number or a
character that no rule takes. -/
theorem tokenize_keywords_whole {l : Lexer} (hl : IsLexer l) {prefs : LexicalPreferences}
    (hmerge : prefs.mergeAdjacent = false) {source : String} {t : Token}
    (ht : t ∈ (l.grammar.tokenize prefs source).value.tokens)
    (hkeyword : t.category.isWithin .keyword = true) :
    isWordSide (t.textBehind source).head? = false ∧
      (isWordSide (t.textBefore source).getLast? = false ∨
        ∃ u ∈ (l.grammar.tokenize prefs source).value.tokens,
          u.span.stop.offset = t.span.start.offset ∧ SplitsWord u) := by
  rw [Grammar.tokenize_tokens_eq_map _ _ hmerge] at ht ⊢
  obtain ⟨raw, hraw, rfl⟩ := List.mem_map.1 ht
  obtain ⟨hstart, hstop⟩ := l.grammar.progress_resolve hraw
  rw [Token.textBehind, Token.textBefore, hstart, hstop]
  refine (whole_of_mem_run hl.keepsKeywords (Array.mem_toList_iff.1 hraw) hkeyword).imp_right
    (Or.imp_right ?_)
  rintro ⟨u, hu, hend, hbreaks⟩
  have hu := Array.mem_toList_iff.2 hu
  obtain ⟨w, hw⟩ := l.grammar.progress_spells hu
  exact ⟨_, List.mem_map_of_mem hu, hw.resolve_eq.2.2.trans hend, hbreaks.splitsWord hw⟩

/-- Whether a token is a keyword that follows a word character. -/
def isTorn (source : String) (t : Token) : Bool :=
  t.category.isWithin .keyword && isWordSide (t.textBefore source).getLast?

/-- All keywords of a source are whole words. -/
def WholeKeywords (l : Lexer) (prefs : LexicalPreferences) (source : String) : Prop :=
  ∀ t ∈ (l.grammar.tokenize prefs source).value.tokens, t.category.isWithin .keyword = true →
    isWordSide (t.textBefore source).getLast? = false ∧
      isWordSide (t.textBehind source).head? = false

theorem keywords_computed : ((tabledGrammar cTag .c).compileQuickly? []).any (fun g =>
    ((g.tokenize { mergeAdjacent := false } "(int)x").value.tokens.any fun t =>
      t.category.isWithin .keyword) &&
    (g.tokenize { mergeAdjacent := false } "1int").value.tokens.any (isTorn "1int") &&
    (g.tokenize { mergeAdjacent := false } "éint").value.tokens.any (isTorn "éint")) = true := by
  decide +kernel

theorem tokenize_keywords_whole_cast : ∃ l : Lexer, cLexer.value = .ok l ∧
    let tokens := (l.grammar.tokenize { mergeAdjacent := false } "(int)x").value.tokens
    ∃ t ∈ tokens, t.category.isWithin .keyword = true ∧
      isWordSide (t.textBehind "(int)x").head? = false ∧
      (isWordSide (t.textBefore "(int)x").getLast? = false ∨
        ∃ u ∈ tokens, u.span.stop.offset = t.span.start.offset ∧ SplitsWord u) := by
  obtain ⟨g, hg, hcomputed⟩ := (Option.any_eq_true _ _).1 keywords_computed
  simp only [Bool.and_eq_true] at hcomputed
  obtain ⟨t, ht, hkeyword⟩ := List.any_eq_true.1 hcomputed.1.1
  have hvalue := cLexer_value hg
  exact ⟨_, hvalue, t, ht, hkeyword, tokenize_keywords_whole (.c hvalue) rfl ht hkeyword⟩

theorem not_wholeKeywords_of_any {l : Lexer} {prefs : LexicalPreferences} {source : String}
    (h : (l.grammar.tokenize prefs source).value.tokens.any (isTorn source) = true) :
    ¬ WholeKeywords l prefs source := by
  intro hwhole
  obtain ⟨t, ht, htorn⟩ := List.any_eq_true.1 h
  obtain ⟨hkeyword, hbefore⟩ := Bool.and_eq_true_iff.1 htorn
  exact absurd (hbefore.symm.trans (hwhole t ht hkeyword).1) (by decide)

/-- Keywords directly behind a number and behind a letter that no rule takes are no whole words. -/
theorem not_wholeKeywords : ∃ l : Lexer, cLexer.value = .ok l ∧
    ¬ WholeKeywords l { mergeAdjacent := false } "1int" ∧
    ¬ WholeKeywords l { mergeAdjacent := false } "éint" := by
  obtain ⟨g, hg, hcomputed⟩ := (Option.any_eq_true _ _).1 keywords_computed
  simp only [Bool.and_eq_true] at hcomputed
  exact ⟨_, cLexer_value hg, not_wholeKeywords_of_any hcomputed.1.2,
    not_wholeKeywords_of_any hcomputed.2⟩

end CFamily

end Highlighting
