import Highlighting.Proofs.Grammar.Evaluation
import Highlighting.Proofs.Language.Declarator
import Highlighting.Proofs.Language.StateStacks
import Highlighting.Proofs.Scan.RuleEnds

/-!
# Rules that make keywords

Where the rules of a grammar leave a scan, and which of them make keywords (`CFamily.keepsKeywords`).
In the states of code a rule makes a number or comes to a place where no word goes on, all the other
states are left at such places only, and ASCII word characters are taken.  A keyword is made of word
characters, no word goes on behind it, and unless the match begins with it there is no word
character before it (`CompiledRule.wholly_of_makesKeywords`).  What is scanned anew begins at the
start of a line and ends with no word character (`CompiledRule.edges_of_makesKeywords`).
-/

namespace Highlighting

/-- Whether a text is made of word characters, one at least. -/
def isWordText (cs : List Char) : Bool := !cs.isEmpty && cs.all isWordChar

section WordText

variable {cs u v : List Char} {c d : Cursor}

theorem isWordSide_head? (h : isWordText cs = true) : isWordSide cs.head? = true := by
  cases cs with
  | nil => cases h
  | cons ch cs =>
    rw [isWordText, List.all_cons, Bool.and_eq_true, Bool.and_eq_true] at h
    exact h.2.1

theorem isWordSide_getLast? (h : isWordText cs = true) : isWordSide cs.getLast? = true := by
  rw [isWordText, Bool.and_eq_true, Bool.not_eq_true', List.isEmpty_eq_false_iff] at h
  rw [List.getLast?_eq_some_getLast h.1]
  exact List.all_eq_true.1 h.2 _ (List.getLast_mem h.1)

/-- A word begins where it is no continuation of another, unless the place is inside of a word. -/
theorem Cursor.Reads.starts (h : c.Reads u d) (hu : isWordText u = true) (hc : ¬ c.InWord) :
    isWordSide c.before = false := by
  have hhead : isWordSide c.ahead.head? = true := by
    have hword := isWordSide_head? hu
    cases u with
    | nil => cases hu
    | cons ch u => rwa [h.ahead]
  exact Bool.eq_false_iff.2 fun hbefore => hc ⟨hbefore, hhead⟩

/-- No word goes on behind a word, unless the place behind it is inside of a word. -/
theorem Cursor.Reads.stops (h : c.Reads u d) (hu : isWordText u = true) (hd : ¬ d.InWord) :
    isWordSide d.ahead.head? = false := by
  have hlast := isWordSide_getLast? hu
  have hbefore : isWordSide d.before = true := by
    rw [h.before]
    cases hlast' : u.getLast? with
    | none => rw [hlast'] at hlast; cases hlast
    | some ch => rwa [hlast'] at hlast
  exact Bool.eq_false_iff.2 fun hhead => hd ⟨hbefore, hhead⟩

end WordText

/-- A state that has rules has a name. -/
theorem Grammar.exists_stateName?_of_mem_rules (g : Grammar) {state : Nat} {r : CompiledRule}
    (hr : r ∈ g.rules state) : ∃ name, g.stateName? state = some name := by
  cases hst : g.states[state]? with
  | none =>
    rw [rules, hst] at hr
    cases hr
  | some st => exact ⟨st.name, by rw [stateName?, hst]; rfl⟩

/-- Whether the words of a table that are keywords are made of word characters, and all other words
are no keywords. -/
def KeywordTable.namesKeywords (t : KeywordTable) : Bool :=
  !t.fallback.isWithin .keyword &&
    t.entries.all fun e => !e.2.isWithin .keyword || isWordText (quickChars e.1)

theorem KeywordTable.isWordText_of_classify {t : KeywordTable} {word : List Char}
    (h : t.namesKeywords = true)
    (hkeyword : (t.classify (String.ofList word)).isWithin .keyword = true) :
    isWordText word = true := by
  rw [namesKeywords, Bool.and_eq_true, Bool.not_eq_true'] at h
  rw [classify, find?] at hkeyword
  cases hfind : t.entries.find? (fun e => e.1 == String.ofList word) with
  | none =>
    rw [hfind] at hkeyword
    exact absurd (h.1.symm.trans hkeyword) Bool.false_ne_true
  | some e =>
    rw [hfind, Option.map_some, Option.getD_some] at hkeyword
    have hentry := List.all_eq_true.1 h.2 e (List.mem_of_find?_eq_some hfind)
    have hname := List.find?_some hfind
    rw [beq_iff_eq] at hname
    rw [hkeyword, hname, quickChars_eq, String.toList_ofList] at hentry
    exact hentry

/-- Whether all that a route reads is made of word characters, of one at least. -/
def Route.spellsWords (p : Route) : Bool := p.spellings?.any (·.all isWordText)

theorem Route.Leads.isWordText {p : Route} {c d : Cursor} {u : List Char} (h : p.Leads c d)
    (hp : p.spellsWords = true) (hu : c.Reads u d) : isWordText u = true := by
  obtain ⟨ws, hws, hall⟩ := (Option.any_eq_true _ _).1 hp
  exact List.all_eq_true.1 hall _ (h.mem_spellings hws hu)

namespace CompiledRule

/-- Whether routes, the latest first, end with a character that is no word character, if there are
any. -/
def leavesWords : List Route → Bool
  | [] => true
  | p :: _ => !p.skips && p.lastOff wordIntervals

/-- Whether a group among others keeps to keywords that are whole, and what is scanned anew begins
the match and ends with no word character. -/
def keepsWholes (before : List (GroupAction Nat × Route)) (x : GroupAction Nat × Route)
    (behind : List (GroupAction Nat × Route)) : Bool :=
  let apart := leavesWords (before.map Prod.snd) &&
    Route.openOff wordIntervals (behind.map Prod.snd)
  match x.1 with
  | .token category => !category.isWithin .keyword || (x.2.spellsWords && apart)
  | .keywords table => table.namesKeywords && apart
  | .scan _ => before.isEmpty && x.2.lastOff wordIntervals

/-- Whether a rule makes no keyword and scans no group anew. -/
def isKeywordFree (r : CompiledRule) : Bool :=
  match r.action with
  | .token category => !category.isWithin .keyword
  | .keywords _ => false
  | .groups actions => actions.all fun
    | .token category => !category.isWithin .keyword
    | _ => false

/-- Whether the keywords that a rule makes are whole, unless the match begins inside of a word, and
what it scans anew begins at the start of a line and ends with no word character. -/
def makesKeywords (r : CompiledRule) : Bool :=
  r.isKeywordFree ||
    match r.action with
    | .token _ => r.settles && r.body?.any Route.spellsWords
    | .keywords table => r.settles && table.namesKeywords
    | .groups actions => r.groupRoutes?.any fun qs =>
      actions.length == qs.length && allAmong keepsWholes [] (actions.zip qs) &&
        (r.action.states.isEmpty || r.body?.any Route.asksLineStart)

variable {r : CompiledRule} {c d : Cursor} {m : RuleMatch} {part : MatchPart}

/-- A part of a match is a whole keyword, unless the match begins inside of a word. -/
def Wholly (part : MatchPart) (c : Cursor) : Prop :=
  ∃ v w y e, c.Reads v y ∧ y.Reads w e ∧ part.start = y.offset ∧ part.stop = e.offset ∧
    isWordText w = true ∧ isWordSide e.ahead.head? = false ∧ (y = c ∨ isWordSide y.before = false)

theorem isWithin_of_isKeywordFree (h : r.isKeywordFree = true) (hpart : part ∈ r.parts c m)
    {text : String} {category : Category} (hcategory : part.action.category? text = some category) :
    category.isWithin .keyword = false := by
  unfold isKeywordFree at h
  unfold parts at hpart
  split at h
  · next haction =>
    rw [haction] at hpart
    obtain rfl := List.mem_singleton.1 hpart
    obtain rfl := Option.some.inj hcategory
    rwa [Bool.not_eq_true'] at h
  · cases h
  · next actions haction =>
    rw [haction] at hpart
    rcases action_of_mem_partsFrom hpart with htext | ⟨g, hg, hgroup⟩
    · rw [htext] at hcategory
      obtain rfl := Option.some.inj hcategory
      decide
    · have hfree := List.all_eq_true.1 h g.1 (List.of_mem_zip hg).1
      rw [← hgroup] at hfree
      split at hfree
      · next category' haction' =>
        rw [haction'] at hcategory
        obtain rfl := Option.some.inj hcategory
        rwa [Bool.not_eq_true'] at hfree
      · cases hfree

theorem states_of_isKeywordFree (h : r.isKeywordFree = true) : r.action.states = [] := by
  unfold isKeywordFree at h
  split at h
  · next haction => rw [haction]; rfl
  · cases h
  · next actions haction =>
    rw [haction]
    refine List.flatMap_eq_nil_iff.2 fun a ha => ?_
    have hfree := List.all_eq_true.1 h a ha
    split at hfree
    · rfl
    · cases hfree

/-- A match that is all of a word is a whole keyword. -/
theorem wholly_of_settles (h : r.settles = true) (hc : c.Placed) (hm : r.matchAt? c = some m)
    (hr : r.action.wantsGroups = false) (hpart : part ∈ r.parts c m)
    (hword : ∀ u, c.Reads u m.stop → isWordText u = true) : Wholly part c := by
  obtain ⟨hstart, hstop⟩ := extent_of_mem_parts hr hpart
  obtain ⟨u, hu⟩ := (matchAt?_sound hc hm).reaches
  exact ⟨[], u, c, m.stop, .refl c, hu, hstart, hstop, hword u hu,
    hu.stops (hword u hu) (not_inWord_of_settles h hc hm), .inl rfl⟩

/-- A group that keeps to whole keywords and is one. -/
theorem wholly_of_keepsWholes {before behind : List (GroupAction Nat × Route)} {q : Route}
    {y e : Cursor} (h : keepsWholes before (part.action, q) behind = true)
    (hbefore : Route.LeadAll (before.reverse.map Prod.snd) c y) (hq : q.Leads y e)
    (hbehind : Route.LeadAll (behind.map Prod.snd) e d) (hstart : part.start = y.offset)
    (hstop : part.stop = e.offset) {category : Category}
    (hcategory : part.action.category?
      (String.ofList (Scanner.textBetween c part.start part.stop)) = some category)
    (hkeyword : category.isWithin .keyword = true) : Wholly part c := by
  obtain ⟨v, hv⟩ := hbefore.reaches
  obtain ⟨w, hw⟩ := hq.reads
  rw [hstart, hstop, Scanner.textBetween_reads hv hw] at hcategory
  obtain ⟨hword, hapart⟩ : isWordText w = true ∧ leavesWords (before.map Prod.snd) = true ∧
      Route.openOff wordIntervals (behind.map Prod.snd) = true := by
    unfold keepsWholes at h
    dsimp only at h
    split at h
    · next category' haction =>
      rw [haction] at hcategory
      obtain rfl := Option.some.inj hcategory
      rw [hkeyword, Bool.not_true, Bool.false_or, Bool.and_eq_true, Bool.and_eq_true] at h
      exact ⟨hq.isWordText h.1 hw, h.2⟩
    · next table haction =>
      rw [haction] at hcategory
      obtain rfl := Option.some.inj hcategory
      rw [Bool.and_eq_true, Bool.and_eq_true] at h
      exact ⟨KeywordTable.isWordText_of_classify h.1 hkeyword, h.2⟩
    · next haction =>
      rw [haction] at hcategory
      cases hcategory
  obtain ⟨ch, hhead, hoff⟩ := Route.head?_of_openOff hbehind hapart.2
  refine ⟨v, w, y, e, hv, hw, hstart, hstop, hword, ?_, ?_⟩
  · rw [hhead]
    exact Bool.eq_false_iff.2 fun h => Bool.false_ne_true (hoff.symm.trans
      (has_wordIntervals_iff.2 h))
  · cases before with
    | nil => exact .inl hbefore.symm
    | cons x before =>
      have hleaves := hapart.1
      rw [List.map_cons, leavesWords, Bool.and_eq_true, Bool.not_eq_true'] at hleaves
      rw [List.reverse_cons, List.map_append, Route.leadAll_append] at hbefore
      obtain ⟨z, -, hlast⟩ := hbefore
      have hx := Route.leadAll_singleton.1 hlast
      exact .inr (hw.starts hword (hx.not_inWord hleaves.1 hleaves.2))

/-- A keyword that a rule makes is whole, unless the match begins inside of a word. -/
theorem wholly_of_makesKeywords (h : r.makesKeywords = true) (hc : c.Placed)
    (hm : r.matchAt? c = some m) (hpart : part ∈ r.parts c m) (hlt : part.start < part.stop)
    {category : Category}
    (hcategory : part.action.category?
      (String.ofList (Scanner.textBetween c part.start part.stop)) = some category)
    (hkeyword : category.isWithin .keyword = true) : Wholly part c := by
  rw [makesKeywords, Bool.or_eq_true] at h
  rcases h with hfree | h
  · have hnot := isWithin_of_isKeywordFree hfree hpart hcategory
    exact absurd (hnot.symm.trans hkeyword) Bool.false_ne_true
  split at h
  · next category' haction =>
    rw [Bool.and_eq_true] at h
    obtain ⟨p, hp, hspells⟩ := (Option.any_eq_true _ _).1 h.2
    refine wholly_of_settles h.1 hc hm (by rw [haction]; rfl) hpart fun u hu => ?_
    exact (leads_of_body? hp hc hm).isWordText hspells hu
  · next table haction =>
    rw [Bool.and_eq_true] at h
    refine wholly_of_settles h.1 hc hm (by rw [haction]; rfl) hpart fun u hu => ?_
    rw [parts, haction] at hpart
    obtain rfl := List.mem_singleton.1 hpart
    obtain rfl := Option.some.inj hcategory
    rw [Scanner.textBetween_reads (.refl c) hu] at hkeyword
    exact KeywordTable.isWordText_of_classify h.2 hkeyword
  · next actions haction =>
    obtain ⟨qs, hqs, h⟩ := (Option.any_eq_true _ _).1 h
    rw [Bool.and_eq_true, Bool.and_eq_true, beq_iff_eq] at h
    obtain ⟨⟨hlength, hall⟩, -⟩ := h
    obtain ⟨before, q, behind, y, e, hzip, hbefore, hq, hbehind, hstart, hstop⟩ :=
      isGroup_of_mem_parts hqs haction hlength hc hm hpart hlt
    rw [hzip] at hall
    have hkeeps := among_of_allAmong hall
    rw [List.append_nil] at hkeeps
    refine wholly_of_keepsWholes hkeeps ?_ hq hbehind hstart hstop hcategory hkeyword
    rwa [List.reverse_reverse]

/-- What a rule that makes keywords scans anew begins at the start of a line and ends with no word
character. -/
theorem edges_of_makesKeywords (h : r.makesKeywords = true) (hc : c.Placed)
    (hm : r.matchAt? c = some m) (hpart : part ∈ r.parts c m) {state : Nat}
    (hstate : state ∈ part.action.states) :
    part.start = c.offset ∧ isWordSide c.before = false ∧
      isWordSide (Scanner.textBetween c part.start part.stop).getLast? = false := by
  have hmem := states_of_mem_parts hpart state hstate
  rw [makesKeywords, Bool.or_eq_true] at h
  rcases h with hfree | h
  · rw [states_of_isKeywordFree hfree] at hmem
    cases hmem
  split at h
  · next haction => rw [haction] at hmem; cases hmem
  · next haction => rw [haction] at hmem; cases hmem
  · next actions haction =>
    obtain ⟨qs, hqs, h⟩ := (Option.any_eq_true _ _).1 h
    rw [Bool.and_eq_true, Bool.and_eq_true, beq_iff_eq, Bool.or_eq_true] at h
    obtain ⟨⟨hlength, hall⟩, hline⟩ := h
    have hlt : part.start < part.stop := by
      rw [parts, haction] at hpart
      exact lt_of_mem_partsFrom hpart (List.ne_nil_of_mem hstate)
    obtain ⟨before, q, behind, y, e, hzip, hbefore, hq, -, hstart, hstop⟩ :=
      isGroup_of_mem_parts hqs haction hlength hc hm hpart hlt
    rw [hzip] at hall
    have hkeeps := among_of_allAmong hall
    obtain ⟨target, hscan⟩ : ∃ target, part.action = .scan target := by
      cases hpartaction : part.action with
      | token | keywords => rw [hpartaction] at hstate; cases hstate
      | scan target => exact ⟨target, rfl⟩
    rw [keepsWholes, hscan, List.append_nil, Bool.and_eq_true, List.isEmpty_iff,
      List.reverse_eq_nil_iff] at hkeeps
    obtain ⟨rfl, hlast⟩ := hkeeps
    obtain rfl : c = y := hbefore
    obtain ⟨w, hw, hoff⟩ := hq.exists_endsOff hlast
    refine ⟨hstart, ?_, ?_⟩
    · rcases hline with hnone | hasks
      · rw [List.isEmpty_iff.1 hnone] at hmem
        cases hmem
      · obtain ⟨p, hp, hasks⟩ := (Option.any_eq_true _ _).1 hasks
        rcases (leads_of_body? hp hc hm).lineStart hasks with hnone | hfeed
        · rw [hnone]; rfl
        · rw [hfeed]; decide
    · rw [hstart, hstop, Scanner.textBetween_reads (.refl c) hw]
      cases hlast' : w.getLast? with
      | none => rfl
      | some ch =>
        refine Bool.eq_false_iff.2 fun hword => Bool.false_ne_true ?_
        exact (hoff ch hlast').symm.trans (has_wordIntervals_iff.2 hword)

end CompiledRule

namespace CFamily

/-- The states of code, in which words are taken. -/
def codeStates : List String := [rootState, "statements"]

/-- The ASCII word characters. -/
def asciiWordIntervals : Intervals := [(48, 57), (65, 90), (95, 95), (97, 122)]

/-- Whether a rule makes a number. -/
def makesNumber (r : CompiledRule) : Bool :=
  match r.action with
  | .token category => category.isWithin .number
  | _ => false

/-- What is computed of the rules of a grammar. -/
def keepsKeywords (g : Grammar) : Bool := g.states.all fun st =>
  if codeStates.contains st.name then
    (st.rules.all fun r => (r.settles || makesNumber r) && r.makesKeywords) &&
      asciiWordIntervals.all fun range => st.rules.any (·.takenRanges.contains range)
  else st.rules.all fun r => (r.transition == .stay || r.settles) && r.isKeywordFree

/-- What is known of the rules of a grammar that keeps keywords whole. -/
structure KeepsKeywords (g : Grammar) : Prop where
  /-- in code a rule makes a number or comes to a place where no word goes on -/
  settles : ∀ state name, g.stateName? state = some name → name ∈ codeStates →
    ∀ r ∈ g.rules state, r.settles = true ∨ makesNumber r = true
  makes : ∀ state name, g.stateName? state = some name → name ∈ codeStates →
    ∀ r ∈ g.rules state, r.makesKeywords = true
  /-- in code ASCII word characters are taken -/
  takes : ∀ state name, g.stateName? state = some name → name ∈ codeStates →
    ∀ ch, isWordChar ch = true → ch.toNat < 128 → ∃ r ∈ g.rules state, r.surelyTakes ch = true
  /-- another state is left where no word goes on -/
  leaves : ∀ state name, g.stateName? state = some name → name ∉ codeStates →
    ∀ r ∈ g.rules state, r.transition = .stay ∨ r.settles = true
  free : ∀ state name, g.stateName? state = some name → name ∉ codeStates →
    ∀ r ∈ g.rules state, r.isKeywordFree = true

theorem meets_asciiWord {ch : Char} (h : isWordChar ch = true) (hascii : ch.toNat < 128) :
    CharSet.Meets ch.toNat asciiWordIntervals := by
  have hlow : wordIntervals.filter (fun range => range.1 < 128) = asciiWordIntervals := by
    decide +kernel
  obtain ⟨range, hrange, hle, hge⟩ := Intervals.has_iff_meets.1 (has_wordIntervals_iff.2 h)
  refine ⟨range, ?_, hle, hge⟩
  rw [← hlow]
  exact List.mem_filter.2 ⟨hrange, decide_eq_true (Nat.lt_of_le_of_lt hle hascii)⟩

theorem KeepsKeywords.of_keepsKeywords {g : Grammar} (h : keepsKeywords g = true) :
    KeepsKeywords g := by
  have hstate : ∀ {state name}, g.stateName? state = some name →
      ∃ st ∈ g.states, st.name = name ∧ g.rules state = st.rules := by
    intro state name hname
    obtain ⟨st, hst, rfl⟩ := Option.map_eq_some_iff.1 hname
    exact ⟨st, List.mem_of_getElem? hst, rfl, by rw [Grammar.rules, hst]⟩
  have hcode : ∀ {state name}, g.stateName? state = some name → name ∈ codeStates →
      ((g.rules state).all fun r => (r.settles || makesNumber r) && r.makesKeywords) = true ∧
        (asciiWordIntervals.all fun range =>
          (g.rules state).any (·.takenRanges.contains range)) = true := by
    intro state name hname hmem
    obtain ⟨st, hst, rfl, hrules⟩ := hstate hname
    have hall := List.all_eq_true.1 h st hst
    rwa [if_pos (List.contains_iff_mem.2 hmem), Bool.and_eq_true, ← hrules] at hall
  have hother : ∀ {state name}, g.stateName? state = some name → name ∉ codeStates →
      ((g.rules state).all fun r => (r.transition == .stay || r.settles) && r.isKeywordFree) =
        true := by
    intro state name hname hmem
    obtain ⟨st, hst, rfl, hrules⟩ := hstate hname
    have hall := List.all_eq_true.1 h st hst
    rwa [if_neg (mt List.contains_iff_mem.1 hmem), ← hrules] at hall
  refine ⟨?_, ?_, ?_, ?_, ?_⟩
  · intro state name hname hmem r hr
    have hrule := List.all_eq_true.1 (hcode hname hmem).1 r hr
    exact Bool.or_eq_true_iff.1 (Bool.and_eq_true_iff.1 hrule).1
  · intro state name hname hmem r hr
    exact (Bool.and_eq_true_iff.1 (List.all_eq_true.1 (hcode hname hmem).1 r hr)).2
  · intro state name hname hmem ch hword hascii
    obtain ⟨range, hrange, hin⟩ := meets_asciiWord hword hascii
    obtain ⟨r, hr, hcontains⟩ :=
      List.any_eq_true.1 (List.all_eq_true.1 (hcode hname hmem).2 range hrange)
    exact ⟨r, hr, CompiledRule.surelyTakes_of_meets ⟨range, List.contains_iff_mem.1 hcontains, hin⟩⟩
  · intro state name hname hmem r hr
    have hrule := List.all_eq_true.1 (hother hname hmem) r hr
    exact (Bool.or_eq_true_iff.1 (Bool.and_eq_true_iff.1 hrule).1).imp_left beq_iff_eq.1
  · intro state name hname hmem r hr
    exact (Bool.and_eq_true_iff.1 (List.all_eq_true.1 (hother hname hmem) r hr)).2

end CFamily

end Highlighting
