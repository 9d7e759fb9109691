import Highlighting.Proofs.Scan.InContext

/-!
# What the rule of a vocabulary matches

A vocabulary stands between two places of a text when one of its words is read from the first to the
second and both are word boundaries (`Vocabulary.Stands`).  Its compiled rule matches at a place
exactly when the vocabulary stands between it and some other (`IsVocabulary.exists_match`), and the
match ends at such a place (`IsVocabulary.stands`).  Whatever marks the words contain, they stand
for themselves.
-/

namespace Highlighting

/-- Exactly one side of a place is a word character. -/
abbrev Cursor.AtBoundary (c : Cursor) : Prop := Look.wordBoundary.holds c = true

/-- One of the words is read between two word boundaries. -/
def Vocabulary.Stands (v : Vocabulary) (c d : Cursor) : Prop :=
  ∃ w ∈ v.words, c.Reads w.toList d ∧ c.AtBoundary ∧ d.AtBoundary

namespace Pattern

variable {ws : List (List Char)}

/-- A choice between words is one of them, a set, or a choice between literals. -/
theorem wordChoice_forms (ws : List (List Char)) :
    (∃ w ∈ ws, wordChoice ws = .literal w) ∨ (∃ s, wordChoice ws = ofSet s) ∨
      wordChoice ws = ofBranches (ws.map .literal) := by
  match ws with
  | [] => exact .inr (.inl ⟨.ofRanges [], rfl⟩)
  | [w] => exact .inl ⟨w, List.mem_singleton_self w, rfl⟩
  | w :: w' :: ws =>
    rw [wordChoice_many, List.map_cons, List.map_cons, plainChoice_many]
    split
    · exact .inr (.inl ⟨_, rfl⟩)
    · exact .inr (.inr rfl)

theorem ofBranches_spelled (hwords : ∀ w ∈ ws, w ≠ []) :
    (ofBranches (ws.map .literal)).Spelled := by
  induction ws with
  | nil => trivial
  | cons w ws ih =>
    have hw := hwords w List.mem_cons_self
    have hws := ih fun u hu => hwords u (List.mem_cons_of_mem w hu)
    cases ws with
    | nil => exact hw
    | cons w' ws => exact ⟨hw, hws⟩

theorem ofBranches_hasIdleLook (ws : List (List Char)) :
    (ofBranches (ws.map .literal)).hasIdleLook = false := by
  match ws with
  | [] => rfl
  | [w] => rfl
  | w :: w' :: ws => exact ofBranches_hasIdleLook (w' :: ws)

theorem wordChoice_spelled (hwords : ∀ w ∈ ws, w ≠ []) : (wordChoice ws).Spelled := by
  rcases wordChoice_forms ws with ⟨w, hw, h⟩ | ⟨s, h⟩ | h <;> rw [h]
  · exact hwords w hw
  · rw [ofSet]
    split
    · exact List.cons_ne_nil _ _
    · trivial
  · exact ofBranches_spelled hwords

theorem wordChoice_hasIdleLook (ws : List (List Char)) : (wordChoice ws).hasIdleLook = false := by
  rcases wordChoice_forms ws with ⟨w, hw, h⟩ | ⟨s, h⟩ | h <;> rw [h]
  · rfl
  · rw [ofSet]
    split <;> rfl
  · exact ofBranches_hasIdleLook ws

/-- Where a whole word leads. -/
theorem leads_wholeWord (hws : ws ≠ []) {isBranch : Bool} {mark : Nat} {c d : Cursor} :
    (Route.ofPattern (wholeWord ws) isBranch mark).1.Leads c d ↔
      c.AtBoundary ∧ (∃ w ∈ ws, c.Reads w d) ∧ d.AtBoundary := by
  simp only [wholeWord, Route.ofPattern, Route.Leads, leads_wordChoice hws]
  constructor
  · rintro ⟨e, ⟨hc, rfl⟩, e', hw, hd, rfl⟩
    exact ⟨hc, hw, hd⟩
  · rintro ⟨hc, hw, hd⟩
    exact ⟨c, ⟨hc, rfl⟩, d, hw, hd, rfl⟩

/-! ### Reading the pattern of a vocabulary -/

variable {v : Vocabulary}

/-- The pattern of a vocabulary is read as a choice between its words between word boundaries. -/
theorem readsWhole_vocabulary (hv : v.words ≠ []) (hwords : ∀ w ∈ v.words, w ≠ "") :
    ∃ s, ReadsWhole v.pattern.toList s ∧ s.read = ⟨wholeWord (v.words.map String.toList), 0⟩ ∧
      s.frame.pattern.depth ≤ 5 := by
  have hchoices : v.words.map String.toList ≠ [] := by simpa using hv
  have hletters : ∀ w ∈ v.words.map String.toList, w ≠ [] := by simpa using hwords
  obtain ⟨s, hs, houter, hgroups, hpattern, hdepth⟩ := foldlM_vocabulary hchoices hletters
  refine ⟨s, ⟨_, lexes_vocabulary v, hs, houter⟩, ?_, hdepth⟩
  rw [Partial.read, hpattern, hgroups]

end Pattern

/-- The matcher of the words of a vocabulary between word boundaries. -/
def Vocabulary.matcher (v : Vocabulary) : Matcher :=
  .ofRead ⟨Pattern.wholeWord (v.words.map String.toList), 0⟩

theorem Vocabulary.matcher_idleLook (v : Vocabulary) : v.matcher.idleLook = false := by
  have hwords := Pattern.wordChoice_hasIdleLook (v.words.map String.toList)
  simp [matcher, Matcher.ofRead, Pattern.wholeWord, Pattern.hasIdleLook, hwords]

namespace CompiledRule

/-- A rule is the compiled rule of a vocabulary, which has words, none of them empty. -/
structure IsVocabulary (r : CompiledRule) (v : Vocabulary) : Prop where
  words : v.words ≠ []
  nonempty : ∀ w ∈ v.words, w ≠ ""
  action : r.action = .token v.category
  transition : r.transition = .stay
  atStart : ∃ p, Pattern.parse (startText v.pattern) = .ok p ∧ r.atStart = .ofRead p
  inContext : ∃ p, Pattern.parse (contextText v.pattern) = .ok p ∧ r.inContext = .ofRead p

variable {r : CompiledRule} {v : Vocabulary} {c d : Cursor} {m : RuleMatch}

theorem IsVocabulary.parts (h : r.IsVocabulary v) : v.words.map String.toList ≠ [] ∧
    ∀ w ∈ v.words.map String.toList, w ≠ [] :=
  ⟨by simpa using h.words, by simpa using h.nonempty⟩

theorem IsVocabulary.groupless (h : r.IsVocabulary v) : r.action.wantsGroups = false := by
  rw [h.action]
  rfl

/-- The rule of a vocabulary takes what its words between word boundaries match at the cursor. -/
theorem IsVocabulary.matchAt?_eq_matchFrom? (h : r.IsVocabulary v) (hc : c.Placed) :
    r.matchAt? c = nonempty? false 0 c (v.matcher.matchFrom? false c) := by
  obtain ⟨s, hs, hread, -⟩ := Pattern.readsWhole_vocabulary h.words h.nonempty
  obtain ⟨start, hstart, hatStart⟩ := h.atStart
  obtain ⟨context, hcontext, hinContext⟩ := h.inContext
  have hstart : Matcher.parse (startText v.pattern) = .ok r.atStart := by
    rw [Matcher.parse, hstart, hatStart]
    rfl
  have hcontext : Matcher.parse (contextText v.pattern) = .ok r.inContext := by
    rw [Matcher.parse, hcontext, hinContext]
    rfl
  rw [matchAt?_eq_of_readsWhole hs hstart hcontext hc, hread, h.groupless]
  rfl

theorem IsVocabulary.leads_iff (h : r.IsVocabulary v) :
    v.matcher.route.Leads c d ↔ v.Stands c d := by
  have hroute : v.matcher.route =
      (Route.ofPattern (Pattern.wholeWord (v.words.map String.toList)) false 0).1 := rfl
  rw [hroute, Pattern.leads_wholeWord h.parts.1]
  simp only [Vocabulary.Stands, List.mem_map, exists_exists_and_eq_and]
  tauto

theorem IsVocabulary.isTied (h : r.IsVocabulary v) : v.matcher.IsTied :=
  Matcher.ofRead_isTied (r := ⟨Pattern.wholeWord (v.words.map String.toList), 0⟩)
    ⟨trivial, Pattern.wordChoice_spelled h.parts.2, trivial⟩

/-- A match of the rule of a vocabulary is one of its words between word boundaries. -/
theorem IsVocabulary.stands (h : r.IsVocabulary v) (hc : c.Placed) (hm : r.matchAt? c = some m) :
    v.Stands c m.stop := by
  rw [h.matchAt?_eq_matchFrom? hc] at hm
  obtain ⟨caps, hfound, -⟩ := nonempty?_eq_some.1 hm
  exact h.leads_iff.1 (Matcher.matchFrom?_sound hfound).leads

/-- The rule of a vocabulary has no groups. -/
theorem IsVocabulary.groups (h : r.IsVocabulary v) (hm : r.matchAt? c = some m) :
    m.groups = [] := by
  rw [matchAt?_eq_nonempty?, h.groupless] at hm
  obtain ⟨caps, -, -, hgroups⟩ := nonempty?_eq_some.1 hm
  exact hgroups

theorem IsVocabulary.advances (h : r.IsVocabulary v) (hd : v.Stands c d) : c.offset < d.offset := by
  obtain ⟨w, hw, hreads, -⟩ := hd
  have hne : w.toList ≠ [] := h.parts.2 _ (List.mem_map_of_mem hw)
  have := byteSize_pos hne
  rw [hreads.offset]
  omega

/-- The rule of a vocabulary matches where one of its words stands between word boundaries. -/
theorem IsVocabulary.exists_match (h : r.IsVocabulary v) (hc : c.Placed)
    (hd : v.Stands c d) : ∃ m, r.matchAt? c = some m := by
  have hfound := Matcher.matchFrom?_isSome h.isTied v.matcher_idleLook false (h.leads_iff.2 hd)
  obtain ⟨⟨caps, stop⟩, hfound⟩ := Option.isSome_iff_exists.1 hfound
  have hlt := h.advances (h.leads_iff.1 (Matcher.matchFrom?_sound hfound).leads)
  rw [h.matchAt?_eq_matchFrom? hc, hfound]
  exact ⟨_, if_pos hlt⟩

end CompiledRule

/-- A vocabulary has words, none of them empty, not too many, and a pattern that is not too long. -/
structure Vocabulary.WithinLimits (v : Vocabulary) : Prop where
  words : v.words ≠ []
  nonempty : ∀ w ∈ v.words, w ≠ ""
  length : v.words.length ≤ Limits.maxVocabularyWords
  bytes : v.pattern.utf8ByteSize ≤ Limits.maxPatternLength

theorem Vocabulary.toRule_eq_ok_iff {v : Vocabulary} {rule : Rule} :
    v.toRule = .ok rule ↔ v.WithinLimits ∧ rule = .token v.pattern v.category := by
  have hany : v.words.any String.isEmpty = true ↔ ¬ ∀ w ∈ v.words, w ≠ "" := by
    simp [List.any_eq_true]
  have hall : v.words.all String.isEmpty = true → v.words = [] ∨ ¬ ∀ w ∈ v.words, w ≠ "" := by
    intro h
    cases hwords : v.words with
    | nil => exact .inl rfl
    | cons w ws =>
      rw [hwords] at h
      have hw := List.all_eq_true.1 h w List.mem_cons_self
      exact .inr fun hne => hne w List.mem_cons_self (String.isEmpty_iff.1 hw)
  rw [toRule]
  constructor
  · intro h
    split at h
    · cases h
    next hsome =>
    split at h
    · cases h
    next hnonempty =>
    split at h
    · cases h
    next hlength =>
    split at h
    · cases h
    next hbytes =>
    refine ⟨⟨fun hnil => hsome (by rw [hnil]; rfl), not_not.1 (mt hany.2 hnonempty),
      Nat.not_lt.1 hlength, Nat.not_lt.1 hbytes⟩, (Except.ok.inj h).symm⟩
  · rintro ⟨h, rfl⟩
    rw [if_neg fun hempty => (hall hempty).elim h.words fun hnot => hnot h.nonempty,
      if_neg fun hempty => hany.1 hempty h.nonempty, if_neg (Nat.not_lt.2 h.length),
      if_neg (Nat.not_lt.2 h.bytes)]

theorem Vocabulary.toRule_eq_ok {v : Vocabulary} {rule : Rule} (h : v.toRule = .ok rule) :
    v.words ≠ [] ∧ (∀ w ∈ v.words, w ≠ "") ∧ rule = .token v.pattern v.category := by
  obtain ⟨hwithin, hrule⟩ := toRule_eq_ok_iff.1 h
  exact ⟨hwithin.words, hwithin.nonempty, hrule⟩

theorem parse_of_readPattern {state pattern : String} {text : List Char} {m : Matcher}
    (h : Definition.readPattern state pattern text = .ok m) :
    ∃ p, Pattern.parse text = .ok p ∧ m = .ofRead p := by
  rw [Definition.readPattern, Matcher.parse] at h
  cases hp : Pattern.parse text with
  | error e => rw [hp] at h; cases h
  | ok p =>
    rw [hp] at h
    exact ⟨p, rfl, (Except.ok.inj h).symm⟩

theorem Definition.compileRule_isVocabulary {d : Definition} {state : String} {v : Vocabulary}
    {rule : Rule} {r : CompiledRule} (hv : v.toRule = .ok rule)
    (h : d.compileRule state rule = .ok r) : r.IsVocabulary v := by
  obtain ⟨hwords, hnonempty, rfl⟩ := Vocabulary.toRule_eq_ok hv
  rw [compileRule] at h
  obtain ⟨whole, -, h⟩ := Except.bind_eq_ok h
  split at h
  · cases h
  obtain ⟨transition, htransition, h⟩ := Except.bind_eq_ok h
  obtain ⟨action, haction, h⟩ := Except.bind_eq_ok h
  obtain ⟨start, hstart, h⟩ := Except.bind_eq_ok h
  obtain ⟨context, hcontext, h⟩ := Except.bind_eq_ok h
  obtain rfl := Except.ok.inj h
  exact ⟨hwords, hnonempty, (Except.ok.inj haction).symm, (Except.ok.inj htransition).symm,
    parse_of_readPattern hstart, parse_of_readPattern hcontext⟩

end Highlighting
