import Mathlib.Data.List.TakeWhile
import Highlighting.Proofs.Grammar.Extended
import Highlighting.Proofs.Scan.Tiling

/-!
# Words of a vocabulary in a scan

Where a scan with an extended grammar comes to a whole word that the extension lists for the state
on top, the next token is that word, with the category of the first rule that lists it for the
state, and the state stack stays as it is (`scanFrom_listedWord`).

Between two places that bound a run of word characters, a vocabulary of such words stands exactly
when it lists the run (`Vocabulary.stands_iff`): a shorter word would end inside the run, where no
word boundary is, and a longer one would go on over its end.
-/

namespace Highlighting

/-- A run of word characters is read between two places, and it is as long as can be on both
sides. -/
structure Cursor.ReadsWord (c : Cursor) (run : List Char) (d : Cursor) : Prop where
  reads : c.Reads run d
  isWord : ∀ ch ∈ run, isWordChar ch = true
  starts : isWordSide c.before = false
  stops : isWordSide d.ahead.head? = false

/-- Every word of a vocabulary is made of word characters. -/
def Vocabulary.IsPlain (v : Vocabulary) : Prop :=
  ∀ w ∈ v.words, ∀ ch ∈ w.toList, isWordChar ch = true

section Words

variable {v : Vocabulary} {c d e : Cursor} {run u w : List Char}

theorem Cursor.ReadsWord.boundary (h : c.ReadsWord run d) (hne : run ≠ []) :
    c.AtBoundary ∧ d.AtBoundary := by
  have hhead : isWordSide c.ahead.head? = true := by
    obtain ⟨ch, rest, rfl⟩ := List.exists_cons_of_ne_nil hne
    rw [h.reads.ahead]
    exact h.isWord ch List.mem_cons_self
  have hlast : isWordSide d.before = true := by
    rw [h.reads.before, List.getLast?_eq_some_getLast hne]
    exact h.isWord _ (List.getLast_mem hne)
  simp [Cursor.AtBoundary, Look.holds, hhead, hlast, h.starts, h.stops]

theorem Cursor.ReadsWord.takeWhile (h : c.ReadsWord run d) :
    c.ahead.takeWhile isWordChar = run := by
  have hrest : d.ahead.takeWhile isWordChar = [] := by
    have hstops := h.stops
    cases hahead : d.ahead with
    | nil => rfl
    | cons ch rest =>
      rw [hahead] at hstops
      have hch : isWordChar ch = false := hstops
      rw [List.takeWhile_cons, hch]
      rfl
  rw [h.reads.ahead, List.takeWhile_append_of_pos h.isWord, hrest, List.append_nil]

/-- From a place that no word character stands before a run of word characters is read, which may be
empty. -/
theorem Cursor.exists_readsWord (h : isWordSide c.before = false) :
    ∃ run d, c.ReadsWord run d ∧ run = c.ahead.takeWhile isWordChar := by
  obtain ⟨d, hd, hahead⟩ := Cursor.exists_reads (List.takeWhile_append_dropWhile (p := isWordChar)
    (l := c.ahead)).symm
  refine ⟨_, d, ⟨hd, fun ch hch => List.mem_takeWhile_imp hch, h, ?_⟩, rfl⟩
  rw [hahead]
  cases hrest : c.ahead.dropWhile isWordChar with
  | nil => rfl
  | cons ch rest =>
    have hhead := List.head?_dropWhile_not isWordChar c.ahead
    rw [hrest] at hhead
    simpa [isWordSide] using hhead

/-- A word that begins where a run does and ends at a boundary is the run. -/
theorem Cursor.ReadsWord.eq_of_boundary (h : c.ReadsWord run d) (hu : c.Reads u e) (hne : u ≠ [])
    (hword : ∀ ch ∈ u, isWordChar ch = true) (hboundary : e.AtBoundary) : u = run ∧ e = d := by
  have hlast : isWordSide e.before = true := by
    rw [hu.before, List.getLast?_eq_some_getLast hne]
    exact hword _ (List.getLast_mem hne)
  have hnext : isWordSide e.ahead.head? = false := by
    simpa [Cursor.AtBoundary, Look.holds, hlast] using hboundary
  rcases Nat.le_total e.offset d.offset with hle | hle
  · obtain ⟨more, rfl, hmore⟩ := hu.split h.reads hle
    cases more with
    | nil => exact ⟨(List.append_nil u).symm, hmore⟩
    | cons ch more =>
      rw [hmore.ahead] at hnext
      have hch : isWordChar ch = true := h.isWord ch (by simp)
      exact absurd (show isWordChar ch = false from hnext) (by simp [hch])
  · obtain ⟨more, rfl, hmore⟩ := h.reads.split hu hle
    cases more with
    | nil => exact ⟨List.append_nil run, hmore.symm⟩
    | cons ch more =>
      have hstops := h.stops
      rw [hmore.ahead] at hstops
      have hch : isWordChar ch = true := hword ch (by simp)
      exact absurd (show isWordChar ch = false from hstops) (by simp [hch])

/-- A vocabulary of whole words stands over a run of word characters. -/
theorem Vocabulary.Stands.readsWord (h : v.Stands c d) (hv : v.IsPlain)
    (hne : ∀ w ∈ v.words, w ≠ "") : ∃ w ∈ v.words, c.ReadsWord w.toList d := by
  obtain ⟨w, hw, hreads, hc, hd⟩ := h
  have hword := hv w hw
  have hne' : w.toList ≠ [] := by simpa using hne w hw
  have hhead : isWordSide c.ahead.head? = true := by
    obtain ⟨ch, rest, heq⟩ := List.exists_cons_of_ne_nil hne'
    rw [heq] at hword hreads
    rw [hreads.ahead]
    exact hword ch List.mem_cons_self
  have hlast : isWordSide d.before = true := by
    rw [hreads.before, List.getLast?_eq_some_getLast hne']
    exact hword _ (List.getLast_mem hne')
  refine ⟨w, hw, hreads, hword, ?_, ?_⟩
  · simpa [Cursor.AtBoundary, Look.holds, hhead] using hc
  · simpa [Cursor.AtBoundary, Look.holds, hlast] using hd

/-- At a run of word characters a vocabulary stands over the run, if it lists it. -/
theorem Vocabulary.stands_iff (hv : v.IsPlain) (hne : ∀ w ∈ v.words, w ≠ "")
    (h : c.ReadsWord run d) : v.Stands c e ↔ v.contains (String.ofList run) = true ∧ e = d := by
  rw [Vocabulary.contains, List.contains_iff_mem]
  constructor
  · rintro ⟨w, hw, hreads, -, hboundary⟩
    have hw' : w.toList ≠ [] := by simpa using hne w hw
    obtain ⟨rfl, rfl⟩ := h.eq_of_boundary hreads hw' (hv w hw) hboundary
    exact ⟨by rwa [String.ofList_toList], rfl⟩
  · rintro ⟨hmem, rfl⟩
    have hrun : run ≠ [] := by
      rintro rfl
      exact hne _ hmem String.ofList_nil
    have hreads : c.Reads (String.ofList run).toList e := by
      rw [String.toList_ofList]
      exact h.reads
    exact ⟨_, hmem, hreads, h.boundary hrun⟩

end Words

namespace CompiledRule

variable {v : Vocabulary} {r : CompiledRule} {c d : Cursor} {run : List Char}

/-- At a run of word characters the rule of a vocabulary takes the run or does not match. -/
theorem IsVocabulary.matchAt?_word (h : r.IsVocabulary v) (hv : v.IsPlain) (hc : c.Placed)
    (hrun : c.ReadsWord run d) :
    r.matchAt? c = if v.contains (String.ofList run) then some ⟨d, []⟩ else none := by
  have hstands := fun e => v.stands_iff (e := e) hv h.nonempty hrun
  cases hm : r.matchAt? c with
  | none =>
    rw [if_neg]
    intro hcontains
    obtain ⟨m, hm'⟩ := h.exists_match hc ((hstands d).2 ⟨hcontains, rfl⟩)
    rw [hm] at hm'
    cases hm'
  | some m =>
    obtain ⟨hcontains, hstop⟩ := (hstands _).1 (h.stands hc hm)
    rw [if_pos hcontains, ← hstop, ← h.groups hm]

end CompiledRule

namespace Extension

variable {x : Extension} {c d : Cursor} {run : List Char}

theorem findSome?_block {vs : List Vocabulary} {block : List CompiledRule}
    (h : List.Forall₂ (fun v r => r.IsVocabulary v) vs block) (hvs : ∀ v ∈ vs, v.IsPlain)
    (hc : c.Placed) (hrun : c.ReadsWord run d) {v : Vocabulary}
    (hv : vs.find? (·.contains (String.ofList run)) = some v) :
    ∃ r : CompiledRule, r.IsVocabulary v ∧ r.matchAt? c = some ⟨d, []⟩ ∧
      block.findSome? (fun r => (r.matchAt? c).map fun m => (r, m)) = some (r, ⟨d, []⟩) := by
  induction h with
  | nil => cases hv
  | @cons u r vs block hr hblock ih =>
    have hmatch := hr.matchAt?_word (hvs u List.mem_cons_self) hc hrun
    rw [List.find?_cons] at hv
    rw [List.findSome?_cons, hmatch]
    split at hv
    · next hcontains =>
      obtain rfl := Option.some.inj hv
      rw [if_pos hcontains] at hmatch ⊢
      exact ⟨r, hr, hmatch, rfl⟩
    · next hcontains =>
      rw [if_neg (by simpa using hcontains)]
      exact ih (fun w hw => hvs w (List.mem_cons_of_mem u hw)) hv

/-- At a run of word characters that a vocabulary for a state lists, the extended state takes the
run by the rule of the first such vocabulary. -/
theorem Extends.firstMatch?_listed {g g' : Grammar} {state : Nat} (h : x.Extends g g')
    (hplain : ∀ e ∈ x.rules, e.vocabulary.IsPlain) {name : String}
    (hname : g.stateName? state = some name) (hc : c.Placed) (hrun : c.ReadsWord run d)
    {v : Vocabulary}
    (hv : (listedIn x.rules name).find? (·.contains (String.ofList run)) = some v) :
    ∃ r : CompiledRule, r.IsVocabulary v ∧ r.matchAt? c = some ⟨d, []⟩ ∧
      g'.firstMatch? state c = some (r, ⟨d, []⟩) := by
  obtain ⟨block, rest, hrules, hblock, -⟩ := (h.rules state).split
  rw [hname] at hblock
  have hvs : ∀ v ∈ listedIn x.rules name, v.IsPlain := by
    intro v hv
    obtain ⟨e, he, -, rfl⟩ := mem_listedIn.1 hv
    exact hplain e he
  obtain ⟨r, hr, hm, hfound⟩ := findSome?_block hblock hvs hc hrun hv
  refine ⟨r, hr, hm, ?_⟩
  rw [Grammar.firstMatch?, hrules, List.findSome?_append, hfound]
  rfl

theorem find?_listedIn {rules : List ExtensionRule} {state word : String} {e : ExtensionRule}
    (h : rules.find? (fun e => e.contexts.contains state && e.vocabulary.contains word) = some e) :
    (listedIn rules state).find? (·.contains word) = some e.vocabulary := by
  induction rules with
  | nil => cases h
  | cons r rules ih =>
    have hlisted : listedIn (r :: rules) state =
        ((r.contexts.filter (· == state)).map fun _ => r.vocabulary) ++ listedIn rules state :=
      List.flatMap_cons
    rw [hlisted, List.find?_append]
    rw [List.find?_cons] at h
    by_cases hword : r.vocabulary.contains word = true
    · by_cases hstate : state ∈ r.contexts
      · have hcontains : r.contexts.contains state = true := List.contains_iff_mem.2 hstate
        rw [hcontains, hword] at h
        obtain rfl := Option.some.inj h
        have hmem : state ∈ r.contexts.filter (· == state) := by simpa using hstate
        obtain ⟨s, more, hmore⟩ := List.exists_cons_of_ne_nil (List.ne_nil_of_mem hmem)
        rw [hmore, List.map_cons, List.find?_cons, hword]
        rfl
      · have hfilter : r.contexts.filter (· == state) = [] := by
          rw [List.filter_eq_nil_iff]
          rintro s hs hbeq
          exact hstate (beq_iff_eq.1 hbeq ▸ hs)
        have hcontains : r.contexts.contains state = false := by
          simpa using hstate
        rw [hcontains] at h
        rw [hfilter]
        exact ih h
    · have hnone : ((r.contexts.filter (· == state)).map fun _ => r.vocabulary).find?
          (·.contains word) = none := by
        rw [List.find?_eq_none]
        rintro v hv
        obtain ⟨-, -, rfl⟩ := List.mem_map.1 hv
        exact hword
      rw [Bool.eq_false_iff.2 hword, Bool.and_false] at h
      rw [hnone]
      exact ih h

end Extension

namespace Scanner

/-- Where a scan comes to a whole word that some rule of the extension lists for the state on top,
the next token is that word, with the category of the first such rule, and the state stack stays as
it is.  The text is that of the whole scan or that of a group that is scanned anew. -/
theorem scanFrom_listedWord {x : Extension} {info : LexerInfo} {d₀ : Definition} {base ext : Lexer}
    (hbase : (Lexer.ofDefinition info d₀).value = .ok base)
    (hext : (x.extend base).value = .ok ext)
    (hplain : ∀ e ∈ x.rules, e.vocabulary.IsPlain)
    {s : Scanner} (hs : s.grammar = ext.grammar)
    {text : List Char} {offset : Nat} {c d : Cursor} {run : List Char}
    (hc : (Cursor.start text offset).Reaches c) (hrun : c.ReadsWord run d)
    {top : Nat} {below : List Nat} {state : String} (htop : ext.grammar.stateName? top = some state)
    {e : ExtensionRule} (hfirst : x.rules.find? (fun e =>
      e.contexts.contains state && e.vocabulary.contains (String.ofList run)) = some e)
    {p : Progress} (hlimit : p.tokens.size < s.limit) (rescan : Rescan) (b : Char)
    (bound : List Char) :
    s.scanFrom rescan (b :: bound) c (top :: below) p =
      s.scanFrom rescan bound d (top :: below)
        { p with tokens := p.tokens.push ⟨e.vocabulary.category, c.offset, d.offset⟩ } := by
  have hplaced := hc.placed (Cursor.placed_start text offset)
  have hlisted := Extension.find?_listedIn hfirst
  obtain ⟨block, rest, hrules, hblock, -⟩ := ((Extension.extend_extends hbase hext).rules top).split
  rw [← (Extension.extend_extends hbase hext).stateName?_eq, htop] at hblock
  have hvs : ∀ v ∈ Extension.listedIn x.rules state, v.IsPlain := by
    intro v hv
    obtain ⟨r, hr, -, rfl⟩ := Extension.mem_listedIn.1 hv
    exact hplain r hr
  obtain ⟨r, hr, hm, hfound⟩ := Extension.findSome?_block hblock hvs hplaced hrun hlisted
  have hmatch : s.grammar.firstMatch? top c = some (r, ⟨d, []⟩) := by
    rw [Grammar.firstMatch?, hs, hrules, List.findSome?_append, hfound]
    rfl
  have hlt : c.offset < d.offset := hr.advances (hr.stands hplaced hm)
  obtain ⟨ch, ahead, hahead⟩ : ∃ ch ahead, c.ahead = ch :: ahead := by
    obtain ⟨ch, run', rfl⟩ := List.exists_cons_of_ne_nil (hrun.reads.ne_nil hlt)
    exact ⟨ch, run' ++ d.ahead, hrun.reads.ahead⟩
  have hstep : s.step rescan c ch ahead (top :: below) p = (d, top :: below,
      { p with tokens := p.tokens.push ⟨e.vocabulary.category, c.offset, d.offset⟩ }) := by
    rw [step]
    dsimp only [List.headD_cons]
    rw [hmatch]
    dsimp only
    rw [hr.transition, emit, hr.action]
    dsimp only
    rw [Progress.push, if_pos hlt]
    rfl
  rw [scanFrom, hahead]
  dsimp only
  rw [if_neg (by omega), hstep]

theorem scanFrom_listedWord_let : ∃ base ext : Lexer, PlainText.lexer.value = .ok base ∧
    (Extension.letExtension.extend base).value = .ok ext ∧
    scanFrom ⟨ext.grammar, 10, false⟩ (fun _ _ _ p => p) ['l', ' '] (.start ['l', 'e', 't', ' '] 0)
        [0] {} =
      scanFrom ⟨ext.grammar, 10, false⟩ (fun _ _ _ p => p) [' '] ⟨some 't', [' '], 3⟩
        [0] { tokens := #[⟨.keyword, 0, 3⟩] } := by
  obtain ⟨base, ext, hbase, hext, htop⟩ := Extension.exists_letLexer
  have hrun : (Cursor.start ['l', 'e', 't', ' '] 0).ReadsWord ['l', 'e', 't']
      ⟨some 't', [' '], 3⟩ :=
    ⟨⟨_, rfl, _, rfl, _, rfl, rfl⟩, List.all_eq_true.1 (by decide), by decide, by decide⟩
  have hplain : ∀ e ∈ Extension.letExtension.rules, e.vocabulary.IsPlain := by
    intro e he w hw
    obtain rfl := List.mem_singleton.1 he
    obtain rfl := List.mem_singleton.1 hw
    exact List.all_eq_true.1 (by decide)
  exact ⟨base, ext, hbase, hext, scanFrom_listedWord (s := ⟨ext.grammar, 10, false⟩) (p := {}) hbase
    hext hplain rfl (.refl _) hrun htop (e := ⟨[rootState], ⟨.keyword, ["let"]⟩⟩) (by decide)
    (show 0 < 10 by decide) _ _ _⟩

end Scanner

end Highlighting
