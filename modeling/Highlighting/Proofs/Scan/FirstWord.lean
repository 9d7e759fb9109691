import Highlighting.Proofs.Scan.InContext
import Highlighting.Proofs.Scan.VocabularyWord

/-!
# The word that a vocabulary takes

The words of a vocabulary are tried in the order in which they are listed, and the first that stands
between two word boundaries is taken (`CompiledRule.IsVocabulary.matchAt?_first`).

At most one word of word characters stands at a place, the run of word characters ahead.  So the
order means nothing to a vocabulary of such words: its rule takes the run if it is listed
(`Vocabulary.matchAt?_run`).  Words with other characters do not have this.  One may end at a word
boundary inside of another, and one that begins or ends with such a character has no word boundary
there between blanks (`Vocabulary.matchAt?_alone`, `Vocabulary.matchAt?_alone_fails`).
-/

namespace Highlighting

namespace Route

variable {met : Set Nat} {tail : List Route} {c d e : Cursor} {caps : Captures}
  {o : Option (Captures × Cursor)} {w : List Char} {mark mark' : Nat}

/-! ### Trying the words of a choice -/

theorem tries_literal (hw : w ≠ []) (hread : c.Reads w d) (h : Tries ∅ tail d caps o) :
    Tries met (.text w :: tail) c caps o := by
  induction w generalizing c met with
  | nil => exact absurd rfl hw
  | cons x xs ih =>
    obtain ⟨ahead, hahead, hrest⟩ := Cursor.reads_cons.1 hread
    apply Tries.text hahead
    cases xs with
    | nil =>
      obtain rfl := Cursor.reads_nil.1 hrest
      exact h
    | cons y ys => exact ih (List.cons_ne_nil y ys) hrest

theorem tries_literal_none (hw : w ≠ []) (hread : ∀ d, ¬ c.Reads w d) :
    Tries met (.text w :: tail) c caps none := by
  induction w generalizing c met with
  | nil => exact absurd rfl hw
  | cons x xs ih =>
    by_cases hx : ∃ ahead, c.ahead = x :: ahead
    · obtain ⟨ahead, hahead⟩ := hx
      have hrest : ∀ d, ¬ (c.past x ahead).Reads xs d := fun d hd => hread d ⟨ahead, hahead, hd⟩
      apply Tries.text hahead
      cases xs with
      | nil => exact absurd (Cursor.Reads.refl _) (hrest _)
      | cons y ys => exact ih (List.cons_ne_nil y ys) hrest
    · apply Tries.textFails
      rintro x' xs' ahead hcs hahead
      obtain ⟨rfl, -⟩ := List.cons.inj hcs
      exact hx ⟨ahead, hahead⟩

/-- What is left behind a word asks for a word boundary and nothing else. -/
structure BoundaryAhead (tail : List Route) (caps : Captures) : Prop where
  ends : ∀ e : Cursor, e.AtBoundary → Tries ∅ tail e caps (some (caps, e))
  fails : ∀ e : Cursor, ¬ e.AtBoundary → Tries ∅ tail e caps none

theorem boundaryAhead_look (mark : Nat) (caps : Captures) :
    BoundaryAhead [.look mark .wordBoundary] caps where
  ends _ he := .look (Set.notMem_empty mark) he .ended
  fails _ he := .lookFails (Bool.eq_false_iff.2 he)

theorem boundaryAhead_meet (h : mark ≠ mark') (caps : Captures) :
    BoundaryAhead [.meet mark', .look mark .wordBoundary] caps where
  ends _ he := .meet (Set.notMem_empty mark') (.look (by simpa using h) he .ended)
  fails _ he := .meet (Set.notMem_empty mark') (.lookFails (Bool.eq_false_iff.2 he))

/-- A word comes to the place behind it, if that is a word boundary. -/
theorem BoundaryAhead.text (h : BoundaryAhead tail caps) (hw : w ≠ [])
    (hread : ∀ e, c.Reads w e → e.AtBoundary → e = d) :
    Tries met (.text w :: tail) c caps (some (caps, d)) ∨
      Tries met (.text w :: tail) c caps none := by
  by_cases hstands : ∃ e, c.Reads w e
  · obtain ⟨e, he⟩ := hstands
    by_cases hboundary : e.AtBoundary
    · obtain rfl := hread e he hboundary
      exact .inl (tries_literal hw he (h.ends e hboundary))
    · exact .inr (tries_literal hw he (h.fails e hboundary))
  · exact .inr (tries_literal_none hw fun e he => hstands ⟨e, he⟩)

end Route

namespace Pattern

open Route

variable {met : Set Nat} {tail : List Route} {c d : Cursor} {caps : Captures}
  {earlier later : List (List Char)} {w : List Char} {mark : Nat}

theorem ofPattern_branches {ws : List (List Char)} (hws : ws ≠ []) :
    (Route.ofPattern (ofBranches ((w :: ws).map .literal)) true mark).1 =
      .fork (.text w) (Route.ofPattern (ofBranches (ws.map .literal)) true mark).1 := by
  cases ws with
  | nil => exact absurd rfl hws
  | cons u ws => rfl

/-- Of the words of a choice the first one that is read up to a word boundary decides. -/
theorem tries_branches (htail : BoundaryAhead tail caps)
    (hwords : ∀ u ∈ earlier ++ w :: later, u ≠ []) (hread : c.Reads w d) (hd : d.AtBoundary)
    (hearlier : ∀ u ∈ earlier, ∀ e, c.Reads u e → e.AtBoundary → e = d) :
    Tries met ((Route.ofPattern (ofBranches ((earlier ++ w :: later).map .literal)) true mark).1 ::
      tail) c caps (some (caps, d)) := by
  induction earlier with
  | nil =>
    have hw : Tries met (.text w :: tail) c caps (some (caps, d)) :=
      tries_literal (hwords w List.mem_cons_self) hread (htail.ends d hd)
    cases later with
    | nil => exact hw
    | cons u later => exact .first hw
  | cons u earlier ih =>
    obtain ⟨hu, hrest⟩ := List.forall_mem_cons.1 hwords
    obtain ⟨hfirst, hothers⟩ := List.forall_mem_cons.1 hearlier
    rw [List.cons_append, ofPattern_branches (by simp)]
    rcases htail.text hu hfirst with hyes | hno
    · exact .first hyes
    · exact .second hno (ih hrest hothers)

/-- A choice between words is one between their literals, unless all are single characters. -/
theorem wordChoice_eq_ofBranches {ws : List (List Char)} (hws : ws ≠ []) :
    wordChoice ws = ofBranches (ws.map .literal) ∨ ∀ u ∈ ws, u.length = 1 := by
  match ws, hws with
  | [u], _ => exact .inl rfl
  | u :: u' :: ws, _ =>
    cases hsets : ((u :: u' :: ws).map literal).mapM asSet? with
    | none =>
      left
      rw [wordChoice_many, List.map_cons, List.map_cons, plainChoice_many]
      rw [List.map_cons, List.map_cons] at hsets
      rw [hsets]
    | some sets =>
      obtain ⟨cs, hcs, -⟩ := mapM_asSet?_words hsets
      right
      rw [hcs]
      simp

/-- Of the words between two word boundaries the first one that stands there decides. -/
theorem tries_wholeWord {ws : List (List Char)}
    (hchoice : wordChoice ws = ofBranches (ws.map .literal)) (hws : ws = earlier ++ w :: later)
    (hwords : ∀ u ∈ ws, u ≠ []) (hc : c.AtBoundary) (hread : c.Reads w d) (hd : d.AtBoundary)
    (hearlier : ∀ u ∈ earlier, ∀ e, c.Reads u e → e.AtBoundary → e = d) :
    Tries ∅ [(Route.ofPattern (wholeWord ws) false 0).1] c [] (some ([], d)) := by
  have hbranches (tail : List Route) (htail : BoundaryAhead tail []) : Tries (insert 0 ∅)
      ((Route.ofPattern (ofBranches (ws.map .literal)) true 1).1 :: tail) c [] (some ([], d)) := by
    subst hws
    exact tries_branches htail hwords hread hd hearlier
  rw [wholeWord, hchoice]
  refine .seq (.look (Set.notMem_empty 0) hc (.seq ?_))
  cases ws with
  | nil => simp at hws
  | cons u ws =>
    cases ws with
    | nil => exact hbranches _ (boundaryAhead_look _ [])
    | cons u' ws => exact .seq (hbranches _ (boundaryAhead_meet (Nat.succ_ne_self _) []))

end Pattern

namespace CompiledRule

variable {r : CompiledRule} {v : Vocabulary} {c d : Cursor} {m : RuleMatch}
  {earlier later : List String} {w : String}

/-- The match of the rule of a vocabulary is what comes of trying its words. -/
theorem IsVocabulary.tries (h : r.IsVocabulary v) (hplaced : c.Placed)
    (hm : r.matchAt? c = some m) :
    ∃ caps, Route.Tries ∅ [v.matcher.route] c [] (some (caps, m.stop)) := by
  rw [h.matchAt?_eq_matchFrom? hplaced] at hm
  obtain ⟨caps, hfound, -⟩ := nonempty?_eq_some.1 hm
  exact ⟨caps, hfound ▸ Matcher.tries_matchFrom? h.isTied v.matcher_idleLook false c⟩

/-- The rule of a vocabulary takes the first word that stands between two word boundaries. -/
theorem IsVocabulary.matchAt?_first (h : r.IsVocabulary v) (hplaced : c.Placed)
    (hwords : v.words = earlier ++ w :: later) (hc : c.AtBoundary) (hread : c.Reads w.toList d)
    (hd : d.AtBoundary)
    (hearlier : ∀ u ∈ earlier, ∀ e, c.Reads u.toList e → e.AtBoundary → e = d) :
    r.matchAt? c = some ⟨d, []⟩ := by
  have hw : w ∈ v.words := by simp [hwords]
  obtain ⟨m, hm⟩ := h.exists_match hplaced ⟨w, hw, hread, hc, hd⟩
  suffices hstop : m.stop = d by rw [hm, ← hstop, ← h.groups hm]
  rcases Pattern.wordChoice_eq_ofBranches h.parts.1 with hchoice | hsingle
  · obtain ⟨caps, htries⟩ := h.tries hplaced hm
    have hsplit : v.words.map String.toList =
        earlier.map String.toList ++ w.toList :: later.map String.toList := by
      rw [hwords, List.map_append, List.map_cons]
    have hfirst := Pattern.tries_wholeWord hchoice hsplit h.parts.2 hc hread hd
      (by simpa using hearlier)
    exact congrArg Prod.snd (Option.some.inj (htries.unique hfirst))
  · -- all words are single characters, so that all that stand here are one character
    obtain ⟨u, hu, hreads, -⟩ := h.stands hplaced hm
    have hlength : u.toList.length = w.toList.length := by
      rw [hsingle _ (List.mem_map_of_mem hu), hsingle _ (List.mem_map_of_mem hw)]
    have hahead : u.toList ++ m.stop.ahead = w.toList ++ d.ahead := by
      rw [← hreads.ahead, ← hread.ahead]
    rw [(List.append_inj hahead hlength).1] at hreads
    exact hreads.unique hread

end CompiledRule

namespace Vocabulary

variable {d : Definition} {state : String} {v : Vocabulary} {rule : Rule} {r : CompiledRule}
  {c : Cursor}

/-! ### Words of word characters -/

/-- The rule of a vocabulary of words of word characters matches at a place of a text exactly when
no word character is before it and the run of word characters ahead is one of the words, and the
match is the run.  The order of the words and words that are listed twice mean nothing. -/
theorem matchAt?_run (hrule : v.toRule = .ok rule) (hr : d.compileRule state rule = .ok r)
    (hplain : v.IsPlain) {text : String} {before : List Char}
    (hc : (Cursor.start text.toList 0).Reads before c) (m : RuleMatch) :
    r.matchAt? c = some m ↔ isWordSide before.getLast? = false ∧
      String.ofList (c.ahead.takeWhile isWordChar) ∈ v.words ∧
      c.Reads (c.ahead.takeWhile isWordChar) m.stop ∧ m.groups = [] := by
  have hvocabulary := Definition.compileRule_isVocabulary hrule hr
  have hplaced : c.Placed := hc.placed (Cursor.placed_start text.toList 0)
  have hbefore : c.before = before.getLast? := by
    rw [hc.before]
    exact Option.or_none
  rw [← hbefore]
  constructor
  · intro hm
    obtain ⟨w, hw, hword⟩ :=
      (hvocabulary.stands hplaced hm).readsWord hplain hvocabulary.nonempty
    rw [hword.takeWhile, String.ofList_toList]
    exact ⟨hword.starts, hw, hword.reads, hvocabulary.groups hm⟩
  · rintro ⟨hstarts, hmem, hreads, hgroups⟩
    obtain ⟨run, e, hrun, heq⟩ := Cursor.exists_readsWord hstarts
    rw [← heq] at hmem hreads
    rw [hvocabulary.matchAt?_word hplain hplaced hrun, contains,
      if_pos (List.contains_iff_mem.2 hmem), ← hreads.unique hrun.reads, ← hgroups]

/-- A word and a beginning of it, which is listed first. -/
def prefixedWords : Vocabulary := ⟨.keyword, ["do", "double"]⟩

/-- The rule of these words. -/
def prefixedRule : Rule := .token prefixedWords.pattern .keyword

/-- A definition without states. -/
def noStates : Definition := ⟨"words", []⟩

theorem prefixedWords_isPlain : prefixedWords.IsPlain := by
  intro w hw
  have hall : prefixedWords.words.all (·.toList.all isWordChar) = true := by decide
  exact List.all_eq_true.1 (List.all_eq_true.1 hall w hw)

theorem toRule_prefixedWords : prefixedWords.toRule = .ok prefixedRule := by
  apply Except.eq_ok_of_toOption
  decide

theorem exists_compiled_prefixedRule :
    ∃ r, noStates.compileRule rootState prefixedRule = .ok r := by
  have h : (noStates.compileRule rootState prefixedRule).toOption.isSome = true := by
    decide +kernel
  obtain ⟨r, hr⟩ := Option.isSome_iff_exists.1 h
  exact ⟨r, Except.eq_ok_of_toOption hr⟩

/-- The longer word stands behind a character of two bytes and a space. -/
theorem matchAt?_run_double : ∃ (r : CompiledRule) (c : Cursor),
    prefixedWords.toRule = .ok prefixedRule ∧
    noStates.compileRule rootState prefixedRule = .ok r ∧ prefixedWords.IsPlain ∧
    (Cursor.start "é double*".toList 0).Reads ['é', ' '] c ∧ c.offset = 3 ∧
    r.matchAt? c = some ⟨⟨some 'e', ['*'], 9⟩, []⟩ := by
  obtain ⟨r, hr⟩ := exists_compiled_prefixedRule
  have hc : (Cursor.start "é double*".toList 0).Reads ['é', ' ']
      ⟨some ' ', ['d', 'o', 'u', 'b', 'l', 'e', '*'], 3⟩ := ⟨_, rfl, _, rfl, rfl⟩
  refine ⟨r, _, toRule_prefixedWords, hr, prefixedWords_isPlain, hc, rfl, ?_⟩
  apply (matchAt?_run toRule_prefixedWords hr prefixedWords_isPlain hc _).2
  refine ⟨by decide, by decide, ?_, rfl⟩
  exact ⟨_, rfl, _, rfl, _, rfl, _, rfl, _, rfl, _, rfl, rfl⟩

/-! ### Words between blanks -/

/-- Every blank lies in one of the ranges of blanks, and no character of these is a word
character. -/
theorem isWordChar_of_isBlank {ch : Char} (h : isBlank ch = true) : isWordChar ch = false := by
  have hall : (blankIntervals.flatMap fun r => List.range' r.1 (r.2 + 1 - r.1)).all
      (fun n => !isWordChar (Char.ofNat n)) = true := by
    decide +kernel
  obtain ⟨r, hr, hlo, hhi⟩ := Intervals.has_iff.1 h
  have hmem : ch.toNat ∈ List.range' r.1 (r.2 + 1 - r.1) :=
    List.mem_range'_1.2 ⟨hlo, by omega⟩
  have hch := List.all_eq_true.1 hall _ (List.mem_flatMap.2 ⟨r, hr, hmem⟩)
  rw [Char.ofNat_toNat] at hch
  simpa using hch

/-- In front of a word and a blank that ends the text, another word that ends at a word boundary
ends where the word does or inside of it. -/
theorem ends_before_blank {c d e : Cursor} {u w : List Char} {b : Char} (hb : isBlank b = true)
    (hw : c.Reads w d) (hd : d.ahead = [b]) (hne : u ≠ []) (hu : c.Reads u e)
    (he : e.AtBoundary) :
    e = d ∨ ∃ more, more ≠ [] ∧ w = u ++ more ∧
      isWordSide u.getLast? ≠ isWordSide more.head? := by
  rcases Nat.le_total e.offset d.offset with hle | hle
  · obtain ⟨more, rfl, hread⟩ := hu.split hw hle
    cases more with
    | nil => exact .inl (Cursor.reads_nil.1 hread)
    | cons x more =>
      refine .inr ⟨_, List.cons_ne_nil x more, rfl, ?_⟩
      have hbefore : e.before = u.getLast? := by
        rw [hu.before, List.getLast?_eq_some_getLast hne]
        rfl
      rw [Cursor.AtBoundary, Look.holds, hbefore, hread.ahead] at he
      simpa using he
  · -- what is read beyond the word is the blank, and no word character is on either side then
    obtain ⟨more, rfl, hread⟩ := hw.split hu hle
    cases more with
    | nil => exact .inl (Cursor.reads_nil.1 hread).symm
    | cons x more =>
      obtain ⟨rfl, hnil⟩ := List.cons.inj (hd.symm.trans hread.ahead)
      obtain ⟨rfl, hends⟩ := List.append_eq_nil_iff.1 hnil.symm
      have hblank : isWordSide e.before = false := by
        rw [hread.before]
        exact isWordChar_of_isBlank hb
      rw [Cursor.AtBoundary, Look.holds, hblank, hends] at he
      cases he

/-- A word stands alone between two blanks.  If it begins and ends with word characters, and no word
listed before it is a beginning of it that ends at a word boundary, then the rule of the vocabulary
matches the whole word.  If it begins or ends with another character, the rule does not. -/
theorem matchAt?_alone (hrule : v.toRule = .ok rule) (hr : d.compileRule state rule = .ok r)
    {earlier later : List String} {w : String} (hwords : v.words = earlier ++ w :: later)
    {b b' : Char} (hb : isBlank b = true) (hb' : isBlank b' = true)
    (hc : (Cursor.start (b :: (w.toList ++ [b'])) 0).Reads [b] c) :
    (isWordSide w.toList.head? = true → isWordSide w.toList.getLast? = true →
      (∀ u ∈ earlier, ∀ more, w.toList = u.toList ++ more → more ≠ [] →
        isWordSide u.toList.getLast? = isWordSide more.head?) →
      ∃ stop, c.Reads w.toList stop ∧ r.matchAt? c = some ⟨stop, []⟩) ∧
    (isWordSide w.toList.head? = false ∨ isWordSide w.toList.getLast? = false →
      ∀ m, r.matchAt? c = some m → ¬ c.Reads w.toList m.stop) := by
  have hvocabulary := Definition.compileRule_isVocabulary hrule hr
  have hplaced : c.Placed := hc.placed (Cursor.placed_start _ 0)
  have hne : ∀ u ∈ v.words, u.toList ≠ [] := by simpa using hvocabulary.nonempty
  have hw : w.toList ≠ [] := hne w (by simp [hwords])
  have hahead : c.ahead = w.toList ++ [b'] := (List.cons.inj hc.ahead).2.symm
  have hbefore : isWordSide c.before = false := by
    rw [hc.before]
    exact isWordChar_of_isBlank hb
  obtain ⟨stop, hstop, hlast⟩ := Cursor.exists_reads hahead
  have hbehind : isWordSide stop.ahead.head? = false := by
    rw [hlast]
    exact isWordChar_of_isBlank hb'
  have hstart : c.AtBoundary ↔ isWordSide w.toList.head? = true := by
    rw [Cursor.AtBoundary, Look.holds, hbefore, hahead, List.head?_append_of_ne_nil _ hw]
    simp
  have hend : stop.AtBoundary ↔ isWordSide w.toList.getLast? = true := by
    rw [Cursor.AtBoundary, Look.holds, hbehind, hstop.before, List.getLast?_eq_some_getLast hw]
    simp
  constructor
  · intro hfirst hfinal hearlier
    refine ⟨stop, hstop, hvocabulary.matchAt?_first hplaced hwords (hstart.2 hfirst) hstop
      (hend.2 hfinal) fun u hu e he hboundary => ?_⟩
    have hu' : u.toList ≠ [] := hne u (by simp [hwords, hu])
    rcases ends_before_blank hb' hstop hlast hu' he hboundary with heq | hinside
    · exact heq
    · obtain ⟨more, hmore, hsplit, hsides⟩ := hinside
      exact absurd (hearlier u hu more hsplit hmore) hsides
  · rintro hother m hm hread
    obtain rfl := hread.unique hstop
    obtain ⟨-, -, -, hc', hstop'⟩ := hvocabulary.stands hplaced hm
    rcases hother with hother | hother
    · rw [hstart.1 hc'] at hother
      cases hother
    · rw [hend.1 hstop'] at hother
      cases hother

/-- The longer word is listed behind a beginning of it, at whose end no word boundary is. -/
theorem matchAt?_alone_double : ∃ (r : CompiledRule) (c stop : Cursor),
    prefixedWords.toRule = .ok prefixedRule ∧
    noStates.compileRule rootState prefixedRule = .ok r ∧
    (Cursor.start (' ' :: ("double".toList ++ [' '])) 0).Reads [' '] c ∧
    c.Reads "double".toList stop ∧ r.matchAt? c = some ⟨stop, []⟩ := by
  obtain ⟨r, hr⟩ := exists_compiled_prefixedRule
  have hc : (Cursor.start (' ' :: ("double".toList ++ [' '])) 0).Reads [' ']
      ⟨some ' ', "double".toList ++ [' '], 1⟩ := ⟨_, rfl, rfl⟩
  have hwords : prefixedWords.words = ["do"] ++ "double" :: [] := rfl
  have hearlier : ∀ u ∈ ["do"], ∀ more, "double".toList = u.toList ++ more → more ≠ [] →
      isWordSide u.toList.getLast? = isWordSide more.head? := by
    intro u hu more hmore _
    obtain rfl := List.mem_singleton.1 hu
    rw [← List.append_cancel_left (show ['d', 'o'] ++ ['u', 'b', 'l', 'e'] = ['d', 'o'] ++ more from
      hmore)]
    decide
  obtain ⟨stop, hstop, hm⟩ := (matchAt?_alone toRule_prefixedWords hr hwords isBlank_space
    isBlank_space hc).1 (by decide) (by decide) hearlier
  exact ⟨r, _, stop, toRule_prefixedWords, hr, hc, hstop, hm⟩

/-- A word that ends with a mark, and another one. -/
def markedWords : Vocabulary := ⟨.nameFunction, ["operator+", "init"]⟩

/-- A word that goes on with a mark behind a beginning of it that is listed first. -/
def hiddenWords : Vocabulary := ⟨.nameFunction, ["operator", "operator+x"]⟩

/-- What the rule of a vocabulary finds behind a space. -/
def foundBehindSpace (v : Vocabulary) (ahead : String) : Option (Option RuleMatch) :=
  v.toRule.toOption.bind fun rule => (noStates.compileRule rootState rule).toOption.map
    (·.matchAt? ⟨some ' ', ahead.toList, 1⟩)

theorem exists_of_foundBehindSpace {v : Vocabulary} {ahead : String} {found : Option RuleMatch}
    (h : foundBehindSpace v ahead = some found) : ∃ rule r, v.toRule = .ok rule ∧
      noStates.compileRule rootState rule = .ok r ∧
      r.matchAt? ⟨some ' ', ahead.toList, 1⟩ = found := by
  obtain ⟨rule, hrule, h⟩ := Option.bind_eq_some_iff.1 h
  obtain ⟨r, hr, hfound⟩ := Option.map_eq_some_iff.1 h
  exact ⟨rule, r, Except.eq_ok_of_toOption hrule, Except.eq_ok_of_toOption hr, hfound⟩

/-- Behind the mark no word boundary is, so that the first word is not found between two spaces.
The second one is not found where its beginning is taken. -/
theorem matchAt?_alone_fails :
    (∃ rule r, markedWords.toRule = .ok rule ∧ noStates.compileRule rootState rule = .ok r ∧
      "operator+" ∈ markedWords.words ∧
      r.matchAt? ⟨some ' ', "operator+ ".toList, 1⟩ = none) ∧
    (∃ rule r, hiddenWords.toRule = .ok rule ∧ noStates.compileRule rootState rule = .ok r ∧
      "operator+x" ∈ hiddenWords.words ∧
      r.matchAt? ⟨some ' ', "operator+x ".toList, 1⟩ = some ⟨⟨some 'r', "+x ".toList, 9⟩, []⟩) := by
  have hmarked : foundBehindSpace markedWords "operator+ " = some none := by
    decide +kernel
  have hhidden : foundBehindSpace hiddenWords "operator+x " =
      some (some ⟨⟨some 'r', "+x ".toList, 9⟩, []⟩) := by
    decide +kernel
  obtain ⟨rule, r, hrule, hr, hfound⟩ := exists_of_foundBehindSpace hmarked
  obtain ⟨rule', r', hrule', hr', hfound'⟩ := exists_of_foundBehindSpace hhidden
  exact ⟨⟨rule, r, hrule, hr, by decide, hfound⟩, ⟨rule', r', hrule', hr', by decide, hfound'⟩⟩

end Vocabulary

end Highlighting
