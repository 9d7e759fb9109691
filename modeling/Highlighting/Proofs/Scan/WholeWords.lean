import Highlighting.Proofs.Grammar.Evaluation
import Highlighting.Proofs.Scan.Points
import Highlighting.Proofs.Scan.VocabularyWord

/-!
# Words of a vocabulary are whole in the text of their scan

Wherever a run takes a match of the rule of a vocabulary, it makes one token of a word that is whole
in the text that is being scanned.  A scan of the source itself sees the characters around the word,
so the word is whole in the source.  A group that is scanned anew is a text of its own, and what
stands around the group is not seen: a word at an edge of the group may be part of a longer word of
the source (`Vocabulary.next?_word`, `Vocabulary.taken?_xinit`).
-/

namespace Highlighting

namespace Scanner

variable {s : Scanner} {x y : Point} {source : List Char}

/-- The character before a place of a scan is the one in the source, or the scan begins there. -/
theorem Visits.before_eq (h : s.Visits source x) :
    x.cursor.before = (takeBytes x.cursor.offset source).getLast? ∨
      (0 < x.depth ∧ x.cursor.offset = x.base) := by
  cases hbefore : x.cursor.before with
  | some b => exact .inl (h.lies.standsIn.before b hbefore).symm
  | none =>
    obtain ⟨u, hu⟩ := h.lies.cursor
    have hnil : u = [] := by
      have hlast : none = u.getLast? := by simpa [hbefore, Cursor.start] using hu.before
      exact List.getLast?_eq_none_iff.1 hlast.symm
    have hoffset : x.cursor.offset = x.base := by
      rw [hu.offset, hnil]
      rfl
    by_cases hdepth : x.depth = 0
    · have htake : takeBytes 0 source = [] := (cutBytes_append [] source).1
      left
      rw [hoffset, (h.whole hdepth).2, htake]
      rfl
    · exact .inr ⟨Nat.pos_of_ne_zero hdepth, hoffset⟩

/-- The character ahead of a place of a scan is the one in the source, or the scan ends there. -/
theorem Visits.head?_eq (h : s.Visits source x) {u : List Char} {d : Cursor}
    (hd : x.cursor.Reads u d) : d.ahead.head? = (dropBytes d.offset source).head? ∨
      (0 < x.depth ∧ d.offset = x.base + byteSize x.text) := by
  obtain ⟨v, hv⟩ := h.lies.cursor
  have hread := hv.trans hd
  have htext : x.text = (v ++ u) ++ d.ahead := hread.ahead
  obtain ⟨before, after, hsource, hbase⟩ := h.lies.text
  have hdrop : dropBytes d.offset source = d.ahead ++ after := by
    have hsplit : source = (before ++ (v ++ u)) ++ (d.ahead ++ after) := by
      rw [hsource, hread.ahead]
      simp
    have hoffset : d.offset = byteSize (before ++ (v ++ u)) := by
      rw [byteSize_append, ← hbase]
      exact hread.offset
    rw [hoffset, hsplit, (cutBytes_append _ _).2]
  cases hahead : d.ahead with
  | cons ch rest => exact .inl (by rw [hdrop, hahead]; rfl)
  | nil =>
    have hoffset : d.offset = x.base + byteSize x.text := by
      rw [htext, hahead, List.append_nil]
      exact hread.offset
    by_cases hdepth : x.depth = 0
    · obtain ⟨hwhole, hzero⟩ := h.whole hdepth
      have hend : dropBytes (byteSize source) source = [] := by
        simpa using (cutBytes_append source []).2
      left
      rw [hoffset, hzero, hwhole, Nat.zero_add, hend]
    · exact .inr ⟨Nat.pos_of_ne_zero hdepth, hoffset⟩

end Scanner

namespace Vocabulary

/-- A match of the rule of a vocabulary makes one token, a word of the vocabulary.  The characters
of the source before and behind it are no word characters, unless the word stands at an edge of a
group that is scanned anew. -/
theorem next?_word {d : Definition} {state : String} {v : Vocabulary} {rule : Rule}
    {r : CompiledRule} (hrule : v.toRule = .ok rule) (hr : d.compileRule state rule = .ok r)
    (hplain : v.IsPlain) {s : Scanner} {source : List Char} {x : Scanner.Point}
    (hx : s.Visits source x) {m : RuleMatch} (htaken : s.taken? x = some (r, m)) :
    ∃ y, s.next? x = some y ∧ y.stack = x.stack ∧
      y.progress = x.progress.push v.category x.cursor.offset m.stop.offset ∧
      (∃ w ∈ v.words,
        RawToken.Spells ⟨v.category, x.cursor.offset, m.stop.offset⟩ source w.toList) ∧
      (isWordSide (takeBytes x.cursor.offset source).getLast? = false ∨
        (0 < x.depth ∧ x.cursor.offset = x.base)) ∧
      (isWordSide (dropBytes m.stop.offset source).head? = false ∨
        (0 < x.depth ∧ m.stop.offset = x.base + byteSize x.text)) := by
  have hvocabulary := Definition.compileRule_isVocabulary hrule hr
  have hplaced := hx.lies.placed
  have hstands := hvocabulary.stands hplaced (Scanner.matchAt?_of_taken? htaken)
  obtain ⟨w, hw, hword⟩ := hstands.readsWord hplain hvocabulary.nonempty
  have hspells := hx.lies.standsIn.liesIn.spells hword.reads v.category
  refine ⟨_, Scanner.next?_of_taken? htaken, ?_, ?_, ⟨w, hw, hspells⟩, ?_, ?_⟩
  · rw [hvocabulary.transition]
    rfl
  · rw [hvocabulary.transition, Scanner.emit, hvocabulary.action]
    rfl
  · refine hx.before_eq.imp_left fun hbefore => ?_
    rw [← hbefore]
    exact hword.starts
  · refine (hx.head?_eq hword.reads).imp_left fun hhead => ?_
    rw [← hhead]
    exact hword.stops

/-- The one word `init`. -/
def initWord : Vocabulary := ⟨.keyword, ["init"]⟩

/-- The rule of the word. -/
def initRule : Rule := .token initWord.pattern .keyword

/-- The word is a keyword, and a name that begins with an x has the rest of it scanned anew. -/
def splitNames : Definition :=
  ⟨"split", [(rootState, [.rule initRule,
    .rule (.groups "(x)(\\w+)" [.token .name, .scan rootState]), .rule (.token "\\w+" .name)])]⟩

theorem initWord_isPlain : initWord.IsPlain := by
  intro w hw
  obtain rfl := List.mem_singleton.1 hw
  exact List.all_eq_true.1 (by decide)

theorem toRule_initWord : initWord.toRule = .ok initRule := by
  apply Except.eq_ok_of_toOption
  decide

theorem next?_word_init : ∃ g r m y, splitNames.build.value = .ok g ∧
    initWord.toRule = .ok initRule ∧ splitNames.compileRule rootState initRule = .ok r ∧
    initWord.IsPlain ∧
    Scanner.taken? ⟨g, 10, false⟩ (Scanner.origin ⟨g, 10, false⟩ ['i', 'n', 'i', 't']) =
      some (r, m) ∧
    Scanner.next? ⟨g, 10, false⟩ (Scanner.origin ⟨g, 10, false⟩ ['i', 'n', 'i', 't']) = some y ∧
    y.progress = { tokens := #[⟨.keyword, 0, 4⟩] } := by
  have h : (splitNames.build.value.toOption.bind fun g =>
      (splitNames.compileRule rootState initRule).toOption.bind fun r =>
        (Scanner.taken? ⟨g, 10, false⟩
          (Scanner.origin ⟨g, 10, false⟩ ['i', 'n', 'i', 't'])).bind fun found =>
            if found.1 = r ∧ found.2.stop.offset = 4 then some () else none) = some () := by
    decide +kernel
  obtain ⟨g, hg, h⟩ := Option.bind_eq_some_iff.1 h
  obtain ⟨r, hr, h⟩ := Option.bind_eq_some_iff.1 h
  obtain ⟨⟨r', m⟩, htaken, h⟩ := Option.bind_eq_some_iff.1 h
  have hr := Except.eq_ok_of_toOption hr
  split at h
  · next hfound =>
    obtain ⟨rfl, hstop⟩ := hfound
    obtain ⟨y, hy, -, hprogress, -⟩ :=
      next?_word toRule_initWord hr initWord_isPlain .refl htaken
    refine ⟨g, r', m, y, Except.eq_ok_of_toOption hg, toRule_initWord, hr, initWord_isPlain, htaken,
      hy, ?_⟩
    rw [hprogress, hstop]
    rfl
  · cases h

/-- The word is found inside of a name, behind the x. -/
theorem taken?_xinit : ∃ g r x m, splitNames.build.value = .ok g ∧
    initWord.toRule = .ok initRule ∧ splitNames.compileRule rootState initRule = .ok r ∧
    initWord.IsPlain ∧ Scanner.Visits ⟨g, 10, false⟩ ['x', 'i', 'n', 'i', 't'] x ∧
    Scanner.taken? ⟨g, 10, false⟩ x = some (r, m) ∧
    isWordSide (takeBytes x.cursor.offset ['x', 'i', 'n', 'i', 't']).getLast? = true := by
  have h : (splitNames.build.value.toOption.bind fun g =>
      (splitNames.compileRule rootState initRule).toOption.bind fun r =>
        (Scanner.inner ⟨g, 10, false⟩
          (Scanner.origin ⟨g, 10, false⟩ ['x', 'i', 'n', 'i', 't'])).head?.bind fun x =>
            (Scanner.taken? ⟨g, 10, false⟩ x).bind fun found =>
              if found.1 = r ∧ isWordSide
                (takeBytes x.cursor.offset ['x', 'i', 'n', 'i', 't']).getLast? = true
              then some () else none) = some () := by
    decide +kernel
  obtain ⟨g, hg, h⟩ := Option.bind_eq_some_iff.1 h
  obtain ⟨r, hr, h⟩ := Option.bind_eq_some_iff.1 h
  obtain ⟨x, hx, h⟩ := Option.bind_eq_some_iff.1 h
  obtain ⟨⟨r', m⟩, htaken, h⟩ := Option.bind_eq_some_iff.1 h
  split at h
  · next hfound =>
    obtain ⟨rfl, hbefore⟩ := hfound
    exact ⟨g, r', x, m, Except.eq_ok_of_toOption hg, toRule_initWord, Except.eq_ok_of_toOption hr,
      initWord_isPlain, .single (.inner (List.mem_of_mem_head? hx)), htaken, hbefore⟩
  · cases h

end Vocabulary

end Highlighting
