import Highlighting.Proofs.Grammar.Building
import Highlighting.Proofs.Grammar.Refusals
import Highlighting.Proofs.Pattern.WordWeight

/-!
# When a lexer can be extended

A definition that can be built can still be built with the rules of an extension in front of what
its states have (`Sound.layered`): the states keep their names, no state is spliced in anew, and the
rule of a vocabulary that is accepted can stand in any state (`fits_vocabulary`), whatever the words
are.  So an extension of a lexer that was built succeeds when it is for this lexer, its vocabularies
are accepted and its states are declared, and everything that is wrong with it is found before the
grammar is built (`Derived.extend_outcome`).
-/

namespace Highlighting

namespace Definition

open Extension

variable {d : Definition} {rules : List ExtensionRule} {v : Vocabulary}

/-- The rule of a vocabulary can stand in any state. -/
theorem fits_vocabulary (d : Definition) (h : v.WithinLimits) :
    d.Fits (.token v.pattern v.category) := by
  obtain ⟨hstart, hcontext, -⟩ := h.parse_wrapped
  exact ⟨h.matchesEmpty_eq, by simp [Rule.states, Rule.token, Transition.states, Action.states],
    ⟨_, congrArg (Except.map Matcher.ofRead) hstart⟩,
    ⟨_, congrArg (Except.map Matcher.ofRead) hcontext⟩⟩

/-- Whether an entry can stand in a state depends on the names of the states. -/
theorem Admits.congr {d' : Definition} (hnames : d'.stateNames = d.stateNames) {entry : Entry}
    (h : d.Admits entry) : d'.Admits entry := by
  cases entry with
  | rule r => exact ⟨h.nonempty, hnames ▸ h.declared, h.atStart, h.inContext⟩
  | splice target =>
    rw [Admits] at h ⊢
    rwa [hnames]

/-- The entries of a definition with rules in front are its entries and those of vocabularies. -/
theorem mem_allEntries_layered {x : String × Entry} (h : x ∈ (layered rules d).allEntries) :
    x ∈ d.allEntries ∨ ∃ r ∈ rules, x.2 = entryOf r.vocabulary := by
  obtain ⟨s, hs, hx⟩ := List.mem_flatMap.1 h
  obtain ⟨t, ht, rfl⟩ := List.mem_map.1 hs
  obtain ⟨entry, hentry, rfl⟩ := List.mem_map.1 hx
  rcases List.mem_append.1 hentry with hnew | hold
  · obtain ⟨v, hv, rfl⟩ := List.mem_map.1 hnew
    obtain ⟨r, hr, -, rfl⟩ := mem_listedIn.1 hv
    exact .inr ⟨r, hr, rfl⟩
  · exact .inl (List.mem_flatMap.2 ⟨t, ht, List.mem_map.2 ⟨entry, hold, rfl⟩⟩)

theorem includes_layered {state target : String} (h : (layered rules d).Includes state target) :
    d.Includes state target := by
  rcases mem_allEntries_layered h with h | ⟨r, -, hentry⟩
  · exact h
  · cases hentry

/-- A definition that can be built can be built with accepted vocabularies in front. -/
theorem Sound.layered (h : d.Sound) (hrules : ∀ r ∈ rules, r.vocabulary.WithinLimits) :
    (layered rules d).Sound where
  root := by
    rw [stateNames_layered]
    exact h.root
  admits x hx := by
    rcases mem_allEntries_layered hx with hx | ⟨r, hr, hentry⟩
    · exact (h.admits x hx).congr (stateNames_layered rules d)
    · rw [hentry]
      exact fits_vocabulary _ (hrules r hr)
  acyclic state hcycle := h.acyclic state (hcycle.lift id fun _ _ => includes_layered)

theorem Sound.rename (h : d.Sound) (name : String) : (d.rename name).Sound := by
  have hnames : (d.rename name).stateNames = d.stateNames := rfl
  exact ⟨h.root, fun x hx => (h.admits x hx).congr hnames, h.acyclic⟩

theorem Sound.exists_compile (h : d.Sound) (hnodup : d.stateNames.Nodup) :
    ∃ g, d.compile = .ok g := by
  cases hcompile : d.compile with
  | ok g => exact ⟨g, rfl⟩
  | error e => exact absurd h (failsWith_of_compile hnodup hcompile).not_sound

end Definition

namespace Lexer

open Definition Extension

/-- A lexer that is built from a definition, or derived from such a lexer by any chain of
extensions. -/
inductive Derived : Lexer → Prop where
  | new {info : LexerInfo} {name : String} {edits : List Edit} {l : Lexer}
      (h : (ofDefinition info (made name edits)).value = .ok l) : Derived l
  | extended {x : Extension} {base l : Lexer} (hbase : Derived base)
      (h : (x.extend base).value = .ok l) : Derived l

variable {l : Lexer}

theorem Derived.nodup (h : l.Derived) : l.definition.stateNames.Nodup := by
  induction h with
  | @new info name edits l h =>
    obtain ⟨-, hdefinition, -⟩ := ofDefinition_eq_ok_iff.1 h
    rw [hdefinition]
    exact nodup_stateNames_made name edits
  | @extended x base l _ h ih =>
    obtain ⟨-, -, -, hdefinition, -⟩ := extend_eq_ok_iff.1 h
    rw [hdefinition, stateNames_layered]
    exact ih

theorem Derived.compile_eq (h : l.Derived) : l.definition.compile = .ok l.grammar := by
  cases h with
  | new h =>
    obtain ⟨-, hdefinition, hcompile⟩ := ofDefinition_eq_ok_iff.1 h
    exact hdefinition ▸ hcompile
  | extended _ h =>
    obtain ⟨-, -, -, -, hcompile⟩ := extend_eq_ok_iff.1 h
    exact hcompile

theorem Derived.sound (h : l.Derived) : l.definition.Sound :=
  sound_of_compile h.nodup h.compile_eq

/-- The definition of a lexer can be built with the rules of an extension that fits it. -/
theorem Derived.exists_compile (h : l.Derived) {x : Extension} (hfit : Fit x.rules l.definition) :
    ∃ g, (layered x.rules (l.definition.rename x.tag)).compile = .ok g := by
  refine ((h.sound.rename x.tag).layered fun r hr => ?_).exists_compile ?_
  · obtain ⟨rule, hrule⟩ := hfit.accepted r hr
    exact (Vocabulary.toRule_eq_ok_iff.1 hrule).1
  · rw [stateNames_layered]
    exact h.nodup

theorem Derived.exists_extend (h : l.Derived) {x : Extension}
    (hanswers : l.info.answersTo x.base = true) (hfit : Fit x.rules l.definition) :
    ∃ l', (x.extend l).value = .ok l' := by
  obtain ⟨g, hg⟩ := h.exists_compile hfit
  exact ⟨⟨x.infoFor l.info, layered x.rules (l.definition.rename x.tag), g⟩,
    extend_eq_ok_iff.2 ⟨hanswers, hfit, rfl, rfl, hg⟩⟩

/-- What is wrong with an extension that cannot be made of a lexer that was built. -/
theorem Derived.wrong_of_extend (h : l.Derived) {x : Extension} {e : ExtensionError}
    (he : (x.extend l).value = .error e) :
    e = .unknownBase x.base ∧ l.info.answersTo x.base = false ∨
      (∃ r ∈ x.rules, ∃ e', r.vocabulary.toRule = .error e' ∧ e = .grammar e') ∨
      ∃ r ∈ x.rules, ∃ state ∈ r.contexts, state ∉ l.definition.stateNames ∧
        e = .grammar (.unknownState state x.tag) := by
  by_cases hanswers : l.info.answersTo x.base = true
  · refine .inr ?_
    cases happly : (x.applyTo (l.definition.rename x.tag)).value with
    | mk d outcome =>
    cases outcome with
    | error e' =>
      have he' : (x.extend l).value = .error (.grammar e') := by
        have htag : (x.infoFor l.info).tag = x.tag := rfl
        rw [extend, if_pos hanswers, Logged.value_bind, htag, happly]
        rfl
      obtain rfl := Except.error.inj (he.symm.trans he')
      rcases refused_of_applyTo happly with ⟨before, r, after, hrules, -, hr, -⟩ |
        ⟨-, before, state, after, hcontexts, -, hstate, rfl, -⟩
      · exact .inl ⟨r, by simp [hrules], e', hr, rfl⟩
      · obtain ⟨r, hr, hmem⟩ := List.mem_flatMap.1
          (show state ∈ x.rules.flatMap (·.contexts) by simp [hcontexts])
        exact .inr ⟨r, hr, state, hmem, hstate, rfl⟩
    | ok u =>
      obtain ⟨hfit, -⟩ := applyTo_eq_ok_iff.1 happly
      obtain ⟨l', hl'⟩ := h.exists_extend hanswers ⟨hfit.accepted, hfit.declared⟩
      cases he.symm.trans hl'
  · rw [extend, if_neg hanswers] at he
    exact .inl ⟨(Except.error.inj he).symm, Bool.eq_false_of_not_eq_true hanswers⟩

/-- A lexer that was built, from a definition or by any chain of extensions, can be extended exactly
when it answers to the base of the extension, every vocabulary has words within the limits, and
every state that is listed is declared.  When it cannot, it is because of one of these:
whatever the words are, the grammar with their rules can be built. -/
theorem Derived.extend_outcome (h : l.Derived) (x : Extension) :
    ((∃ l', (x.extend l).value = .ok l') ↔ l.info.answersTo x.base = true ∧
      (∀ r ∈ x.rules, r.vocabulary.WithinLimits) ∧
      ∀ r ∈ x.rules, ∀ state ∈ r.contexts, state ∈ l.definition.stateNames) ∧
    ∀ e, (x.extend l).value = .error e →
      e = .unknownBase x.base ∧ l.info.answersTo x.base = false ∨
      (∃ r ∈ x.rules, ∃ e', r.vocabulary.toRule = .error e' ∧ e = .grammar e') ∨
      ∃ r ∈ x.rules, ∃ state ∈ r.contexts, state ∉ l.definition.stateNames ∧
        e = .grammar (.unknownState state x.tag) := by
  refine ⟨⟨?_, ?_⟩, fun e he => h.wrong_of_extend he⟩
  · rintro ⟨l', hl'⟩
    obtain ⟨hanswers, hfit, -⟩ := extend_eq_ok_iff.1 hl'
    refine ⟨hanswers, fun r hr => ?_, hfit.declared⟩
    obtain ⟨rule, hrule⟩ := hfit.accepted r hr
    exact (Vocabulary.toRule_eq_ok_iff.1 hrule).1
  · rintro ⟨hanswers, hlimits, hdeclared⟩
    exact h.exists_extend hanswers
      ⟨fun r hr => ⟨_, Vocabulary.toRule_eq_ok_iff.2 ⟨hlimits r hr, rfl⟩⟩, hdeclared⟩

/-- Plain text with words that are made of marks. -/
def marksExtension : Extension where
  base := "TEXT"
  rules := [{ contexts := [rootState], vocabulary := ⟨.operator, ["(?:", "a|b", "]\\E+"]⟩ }]

/-- The lexer of plain text can be extended by words that are made of marks. -/
theorem extend_outcome_marks : ∃ base : Lexer, PlainText.lexer.value = .ok base ∧ base.Derived ∧
    ∃ l', (marksExtension.extend base).value = .ok l' := by
  obtain ⟨base, -, hbase, -⟩ := exists_letLexer
  obtain ⟨hinfo, hdefinition, -⟩ := ofDefinition_eq_ok_iff.1 hbase
  have hmade : PlainText.grammar =
      made PlainText.tag [.append rootState [.rule (.token "(?s:.)+" .text)]] := by
    decide
  have hderived : base.Derived := by
    rw [PlainText.lexer, hmade] at hbase
    exact .new hbase
  refine ⟨base, hbase, hderived, (hderived.extend_outcome marksExtension).1.2 ⟨?_, ?_, ?_⟩⟩
  · rw [hinfo]
    decide
  · intro r hr
    rw [List.mem_singleton.1 hr]
    exact ⟨by decide, by decide, by decide, by decide⟩
  · rw [hdefinition]
    decide

end Lexer

end Highlighting
