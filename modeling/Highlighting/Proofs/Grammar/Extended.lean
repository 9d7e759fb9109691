import Highlighting.Language.PlainText
import Highlighting.Proofs.Grammar.Blocks

/-!
# The grammar of an extended lexer

An extended grammar has the states of the base grammar.  The rules of a state begin with the
vocabularies that go into the state, in the order of the extension, and what follows them are the
rules of the base with vocabularies put in between, wherever a state is spliced into another
(`extend_extends`).
-/

namespace Highlighting

/-- A list is another one with more elements of some kind put in. -/
inductive Padded {α : Type} (isPut : α → Prop) : List α → List α → Prop where
  | nil : Padded isPut [] []
  | keep {x : α} {xs ys : List α} (h : Padded isPut xs ys) : Padded isPut (x :: xs) (x :: ys)
  | put {y : α} {xs ys : List α} (hy : isPut y) (h : Padded isPut xs ys) : Padded isPut xs (y :: ys)

namespace Padded

variable {α β : Type} {isPut : α → Prop} {xs ys xs' ys' : List α}

theorem append (h : Padded isPut xs ys) (h' : Padded isPut xs' ys') :
    Padded isPut (xs ++ xs') (ys ++ ys') := by
  induction h with
  | nil => exact h'
  | keep _ ih => exact .keep ih
  | put hy _ ih => exact .put hy ih

theorem put_append {new : List α} (hnew : ∀ y ∈ new, isPut y) (h : Padded isPut xs ys) :
    Padded isPut xs (new ++ ys) := by
  induction new with
  | nil => exact h
  | cons y new ih =>
    exact .put (hnew y List.mem_cons_self) (ih fun z hz => hnew z (List.mem_cons_of_mem y hz))

theorem mem (h : Padded isPut xs ys) {y : α} (hy : y ∈ ys) : isPut y ∨ y ∈ xs := by
  induction h with
  | nil => cases hy
  | keep _ ih =>
    rcases List.mem_cons.1 hy with rfl | hy
    · exact .inr List.mem_cons_self
    · exact (ih hy).imp_right (List.mem_cons_of_mem _)
  | put hput _ ih =>
    rcases List.mem_cons.1 hy with rfl | hy
    · exact .inl hput
    · exact ih hy

theorem subset (h : Padded isPut xs ys) {x : α} (hx : x ∈ xs) : x ∈ ys := by
  induction h with
  | nil => cases hx
  | keep _ ih =>
    rcases List.mem_cons.1 hx with rfl | hx
    · exact List.mem_cons_self
    · exact List.mem_cons_of_mem _ (ih hx)
  | put _ _ ih => exact List.mem_cons_of_mem _ (ih hx)

/-- Elements of which a search wants to know nothing do not change what it finds. -/
theorem findSome?_eq {f : α → Option β} (h : Padded isPut xs ys)
    (hf : ∀ y, isPut y → f y = none) : ys.findSome? f = xs.findSome? f := by
  induction h with
  | nil => rfl
  | keep _ ih => rw [List.findSome?_cons, List.findSome?_cons, ih]
  | put hy _ ih => rw [List.findSome?_cons, hf _ hy, ih]

end Padded

namespace Extension

/-- The rule of one of the vocabularies of an extension. -/
def Has (x : Extension) (r : CompiledRule) : Prop := ∃ e ∈ x.rules, r.IsVocabulary e.vocabulary

/-- The rules of an extension that go into a state, followed by the rules that a state has
otherwise. -/
structure ExtendsRules (x : Extension) (state : Option String) (rules rules' : List CompiledRule) :
    Prop where
  split : ∃ block rest, rules' = block ++ rest ∧
    List.Forall₂ (fun v r => r.IsVocabulary v) ((state.map (listedIn x.rules)).getD []) block ∧
      Padded x.Has rules rest

/-- A grammar has the states of another, each with the rules of an extension in front. -/
structure Extends (x : Extension) (g g' : Grammar) : Prop where
  names : g'.stateNames = g.stateNames
  rules : ∀ i, ExtendsRules x (g.stateName? i) (g.rules i) (g'.rules i)

theorem stateName?_eq (g : Grammar) (i : Nat) : g.stateName? i = g.stateNames[i]? := by
  rw [Grammar.stateName?, Grammar.stateNames, List.getElem?_map]

theorem Extends.stateName?_eq {x : Extension} {g g' : Grammar} (h : x.Extends g g') (i : Nat) :
    g'.stateName? i = g.stateName? i := by
  rw [Extension.stateName?_eq, Extension.stateName?_eq, h.names]

end Extension

namespace Definition

variable {d d' : Definition}

theorem index?_eq (d : Definition) (state : String) :
    d.index? state = d.stateNames.findIdx? (· == state) := by
  rw [index?, stateNames, List.findIdx?_map]
  rfl

theorem resolve_congr (h : d'.stateNames = d.stateNames) : d'.resolve = d.resolve := by
  funext s t
  rw [resolve, resolve, index?_eq, index?_eq, h]

/-- What an entry is compiled to depends on the names of the states. -/
theorem compileEntry_congr (h : d'.stateNames = d.stateNames) :
    d'.compileEntry = d.compileEntry := by
  have hresolve := resolve_congr h
  have htransition : d'.resolveTransition = d.resolveTransition := by
    funext s t
    cases t <;> simp [resolveTransition, hresolve]
  have hgroup : d'.resolveGroup = d.resolveGroup := by
    funext s a
    cases a <;> simp [resolveGroup, hresolve]
  have haction : d'.resolveAction = d.resolveAction := by
    funext s a
    cases a <;> simp [resolveAction, hgroup]
  funext s e
  cases e <;> simp [compileEntry, compileRule, hresolve, htransition, haction]

/-- Entries with blocks of rules in front of those of each state become the same rules with more
rules put in. -/
theorem Splices.padded {isPut : CompiledRule → Prop} {slots slots' : List (List Slot)}
    (hslots : ∀ i, ∃ block : List CompiledRule,
      slots'.getD i [] = block.map .rule ++ slots.getD i [] ∧ ∀ r ∈ block, isPut r)
    {entries : List Slot} {rules rules' : List CompiledRule} (h : Splices slots entries rules)
    (h' : Splices slots' entries rules') : Padded isPut rules rules' := by
  induction h generalizing rules' with
  | nil =>
    cases h'
    exact .nil
  | rule _ ih =>
    cases h' with
    | rule h' => exact .keep (ih h')
  | @splice target rest inner rules _ _ ihinner ih =>
    cases h' with
    | splice hinner' h' =>
      obtain ⟨block, hblock, hput⟩ := hslots target
      rw [hblock] at hinner'
      obtain ⟨more, rfl, hmore⟩ := splices_rules_append block hinner'
      exact (Padded.put_append hput (ihinner hmore)).append (ih h')

theorem compile_eq_ok {g : Grammar} (h : d.compile = .ok g) :
    ∃ slots rules, d.compileEntries = .ok slots ∧ List.Forall₂ (Splices slots) slots rules ∧
      g = ⟨d.name, d.stateNames.zipWith CompiledState.mk rules⟩ := by
  rw [compile] at h
  split at h
  · obtain ⟨slots, hslots, h⟩ := Except.bind_eq_ok h
    obtain ⟨rules, hrules, h⟩ := Except.bind_eq_ok h
    rw [flatten] at hrules
    split at hrules
    · next all hall =>
      obtain rfl := Except.ok.inj hrules
      exact ⟨slots, all, hslots, expand_splices hall, (Except.ok.inj h).symm⟩
    · cases hrules
  · cases h

theorem names_zipWith {names : List String} {rules : List (List CompiledRule)}
    (h : names.length = rules.length) :
    (names.zipWith CompiledState.mk rules).map CompiledState.name = names := by
  induction names generalizing rules with
  | nil => rfl
  | cons name names ih =>
    cases rules with
    | nil => cases h
    | cons r rules => exact congrArg (name :: ·) (ih (Nat.succ.inj h))

theorem rules_zipWith {name : String} {names : List String} {rules : List (List CompiledRule)}
    (h : names.length = rules.length) (i : Nat) :
    Grammar.rules ⟨name, names.zipWith CompiledState.mk rules⟩ i = rules.getD i [] := by
  rw [Grammar.rules, List.getElem?_zipWith, List.getD_eq_getElem?_getD]
  by_cases hi : i < rules.length
  · rw [List.getElem?_eq_getElem hi, List.getElem?_eq_getElem (h ▸ hi)]
    rfl
  · rw [List.getElem?_eq_none (Nat.le_of_not_lt hi),
      List.getElem?_eq_none (h ▸ Nat.le_of_not_lt hi)]
    rfl

theorem splices_getD {slots slots' : List (List Slot)} {rules : List (List CompiledRule)}
    (h : List.Forall₂ (Splices slots) slots' rules) (i : Nat) :
    Splices slots (slots'.getD i []) (rules.getD i []) := by
  induction h generalizing i with
  | nil => exact .nil
  | cons h _ ih =>
    cases i with
    | zero => exact h
    | succ i => exact ih i

/-- A compiled grammar has the rules that the entries of its states become. -/
theorem compile_states {g : Grammar} (h : d.compile = .ok g) :
    ∃ slots, d.compileEntries = .ok slots ∧ g.stateNames = d.stateNames ∧
      ∀ i, Splices slots (slots.getD i []) (g.rules i) := by
  obtain ⟨slots, rules, hslots, hrules, rfl⟩ := compile_eq_ok h
  have hlength : d.stateNames.length = rules.length := by
    rw [stateNames, List.length_map, (Except.forall₂_of_mapM hslots).length_eq, hrules.length_eq]
  refine ⟨slots, hslots, names_zipWith hlength, fun i => ?_⟩
  rw [rules_zipWith hlength]
  exact splices_getD hrules i

end Definition

namespace Extension

open Definition

variable {x : Extension}

/-- The compiled block of a state has the rules of its vocabularies, in order. -/
theorem compile_block {f : Entry → Except GrammarError Slot} {vs : List Vocabulary}
    {block : List Slot}
    (hf : ∀ v ∈ vs, ∀ slot, f (entryOf v) = .ok slot →
      ∃ r : CompiledRule, slot = .rule r ∧ r.IsVocabulary v)
    (h : (vs.map entryOf).mapM f = .ok block) :
    ∃ rules : List CompiledRule, block = rules.map .rule ∧
      List.Forall₂ (fun v r => r.IsVocabulary v) vs rules := by
  induction vs generalizing block with
  | nil =>
    obtain rfl := Except.ok.inj (show Except.ok [] = Except.ok block from h)
    exact ⟨[], rfl, .nil⟩
  | cons v vs ih =>
    rw [List.map_cons, List.mapM_cons] at h
    obtain ⟨slot, hslot, h⟩ := Except.bind_eq_ok h
    obtain ⟨rest, hrest, h⟩ := Except.bind_eq_ok h
    obtain rfl := Except.ok.inj h
    obtain ⟨r, rfl, hr⟩ := hf v List.mem_cons_self slot hslot
    obtain ⟨rules, rfl, hrules⟩ := ih (fun u hu => hf u (List.mem_cons_of_mem v hu)) hrest
    exact ⟨r :: rules, rfl, .cons hr hrules⟩

/-- The entries of a state with its block in front. -/
theorem compile_extended {f : Entry → Except GrammarError Slot} {vs : List Vocabulary}
    {entries : List Entry} {slots slots' : List Slot}
    (hf : ∀ v ∈ vs, ∀ slot, f (entryOf v) = .ok slot →
      ∃ r : CompiledRule, slot = .rule r ∧ r.IsVocabulary v)
    (h : entries.mapM f = .ok slots) (h' : (vs.map entryOf ++ entries).mapM f = .ok slots') :
    ∃ rules : List CompiledRule, slots' = rules.map .rule ++ slots ∧
      List.Forall₂ (fun v r => r.IsVocabulary v) vs rules := by
  rw [List.mapM_append] at h'
  obtain ⟨block, hblock, h'⟩ := Except.bind_eq_ok h'
  obtain ⟨more, hmore, h'⟩ := Except.bind_eq_ok h'
  obtain rfl := Except.ok.inj h'
  obtain rfl := Except.ok.inj (h.symm.trans hmore)
  obtain ⟨rules, rfl, hrules⟩ := compile_block hf hblock
  exact ⟨rules, rfl, hrules⟩

/-- Each state of the extended definition has the rules of its block in front of its slots. -/
theorem compileEntries_extended {f : String → Entry → Except GrammarError Slot}
    {rules : List ExtensionRule} {states : List (String × List Entry)}
    {slots slots' : List (List Slot)}
    (hf : ∀ s v, v ∈ listedIn rules s → ∀ slot, f s (entryOf v) = .ok slot →
      ∃ r : CompiledRule, slot = .rule r ∧ r.IsVocabulary v)
    (h : states.mapM (fun s => s.2.mapM (f s.1)) = .ok slots)
    (h' : (states.map fun s => (s.1, (listedIn rules s.1).map entryOf ++ s.2)).mapM
      (fun s => s.2.mapM (f s.1)) = .ok slots') (i : Nat) :
    ∃ block : List CompiledRule, slots'.getD i [] = block.map .rule ++ slots.getD i [] ∧
      List.Forall₂ (fun v r => r.IsVocabulary v)
        (((states.map Prod.fst)[i]?.map (listedIn rules)).getD []) block := by
  induction states generalizing slots slots' i with
  | nil =>
    obtain rfl := Except.ok.inj (show Except.ok [] = Except.ok slots from h)
    obtain rfl := Except.ok.inj (show Except.ok [] = Except.ok slots' from h')
    exact ⟨[], rfl, .nil⟩
  | cons s states ih =>
    rw [List.mapM_cons] at h
    rw [List.map_cons, List.mapM_cons] at h'
    obtain ⟨first, hfirst, h⟩ := Except.bind_eq_ok h
    obtain ⟨rest, hrest, h⟩ := Except.bind_eq_ok h
    obtain ⟨first', hfirst', h'⟩ := Except.bind_eq_ok h'
    obtain ⟨rest', hrest', h'⟩ := Except.bind_eq_ok h'
    obtain rfl := Except.ok.inj h
    obtain rfl := Except.ok.inj h'
    cases i with
    | zero => exact compile_extended (hf s.1) hfirst hfirst'
    | succ i => exact ih hrest hrest' i

theorem mem_listedIn {rules : List ExtensionRule} {state : String} {v : Vocabulary} :
    v ∈ listedIn rules state ↔ ∃ r ∈ rules, state ∈ r.contexts ∧ r.vocabulary = v := by
  simp only [listedIn, List.mem_flatMap, List.mem_map, List.mem_filter, beq_iff_eq]
  constructor
  · rintro ⟨r, hr, s, ⟨hs, rfl⟩, rfl⟩
    exact ⟨r, hr, hs, rfl⟩
  · rintro ⟨r, hr, hs, rfl⟩
    exact ⟨r, hr, state, ⟨hs, rfl⟩, rfl⟩

theorem ofDefinition_eq_ok_iff {info : LexerInfo} {d : Definition} {l : Lexer} :
    (Lexer.ofDefinition info d).value = .ok l ↔
      l.info = info ∧ l.definition = d ∧ d.compile = .ok l.grammar := by
  rw [Lexer.ofDefinition, Logged.value_bind, Definition.build]
  cases hcompile : d.compile with
  | error e =>
    constructor
    · intro h
      cases h
    · rintro ⟨-, -, h⟩
      cases h
  | ok g =>
    constructor
    · intro h
      obtain rfl := Except.ok.inj (show Except.ok ⟨info, d, g⟩ = Except.ok l from h)
      exact ⟨rfl, rfl, rfl⟩
    · rintro ⟨rfl, rfl, hg⟩
      obtain rfl := Except.ok.inj hg
      rfl

theorem ofDefinition_value {info : LexerInfo} {d : Definition} {l : Lexer}
    (h : (Lexer.ofDefinition info d).value = .ok l) :
    l.definition = d ∧ d.compile = .ok l.grammar :=
  (ofDefinition_eq_ok_iff.1 h).2

/-- An extension can be made of a lexer that answers to its base and whose definition it fits, when
the definition with its rules can be compiled. -/
theorem extend_eq_ok_iff {base ext : Lexer} : (x.extend base).value = .ok ext ↔
    base.info.answersTo x.base = true ∧ Fit x.rules base.definition ∧
      ext.info = x.infoFor base.info ∧
      ext.definition = layered x.rules (base.definition.rename x.tag) ∧
      ext.definition.compile = .ok ext.grammar := by
  have htag : (x.infoFor base.info).tag = x.tag := rfl
  have hfit : Fit x.rules (base.definition.rename x.tag) ↔ Fit x.rules base.definition :=
    ⟨fun h => ⟨h.accepted, h.declared⟩, fun h => ⟨h.accepted, h.declared⟩⟩
  rw [extend]
  by_cases hanswers : base.info.answersTo x.base = true
  · rw [if_pos hanswers, Logged.value_bind, htag, and_iff_right hanswers, ← hfit]
    cases happly : (x.applyTo (base.definition.rename x.tag)).value with
    | mk d outcome =>
    cases outcome with
    | error e =>
      constructor
      · intro h
        cases h
      · rintro ⟨hd, -⟩
        cases (Prod.mk.inj (happly.symm.trans (applyTo_eq_ok_iff.2 ⟨hd, rfl⟩))).2
    | ok u =>
      obtain ⟨hd, rfl⟩ := applyTo_eq_ok_iff.1 happly
      dsimp only
      rw [Logged.value_bind, and_iff_right hd]
      cases hlexer : (Lexer.ofDefinition (x.infoFor base.info)
          (layered x.rules (base.definition.rename x.tag))).value with
      | error e =>
        constructor
        · intro h
          cases h
        · rintro ⟨hinfo, hdefinition, hcompile⟩
          cases hlexer.symm.trans (ofDefinition_eq_ok_iff.2
            ⟨hinfo, hdefinition, hdefinition ▸ hcompile⟩)
      | ok lexer =>
        obtain ⟨hinfo, hdefinition, hcompile⟩ := ofDefinition_eq_ok_iff.1 hlexer
        constructor
        · intro h
          obtain rfl := Except.ok.inj (show Except.ok lexer = Except.ok ext from h)
          exact ⟨hinfo, hdefinition, hdefinition ▸ hcompile⟩
        · rintro ⟨hinfo', hdefinition', hcompile'⟩
          obtain rfl := Except.ok.inj (hlexer.symm.trans (ofDefinition_eq_ok_iff.2
            ⟨hinfo', hdefinition', hdefinition' ▸ hcompile'⟩))
          rfl
  · rw [if_neg hanswers]
    constructor
    · intro h
      cases h
    · rintro ⟨h, -⟩
      exact absurd h hanswers

/-- What an extension makes of the definition of a lexer. -/
theorem extend_definition {base ext : Lexer} (h : (x.extend base).value = .ok ext) :
    ∃ d : Definition, d.states = base.definition.states.map (fun s =>
        (s.1, (listedIn x.rules s.1).map entryOf ++ s.2)) ∧
      (∀ r ∈ x.rules, ∃ rule, r.vocabulary.toRule = .ok rule) ∧ d.compile = .ok ext.grammar := by
  obtain ⟨-, hfit, -, hdefinition, hcompile⟩ := extend_eq_ok_iff.1 h
  exact ⟨ext.definition, congrArg Definition.states hdefinition, hfit.accepted, hcompile⟩

theorem exists_vocabulary {vs : List Vocabulary} {block : List CompiledRule}
    (h : List.Forall₂ (fun v r => r.IsVocabulary v) vs block) {r : CompiledRule} (hr : r ∈ block) :
    ∃ v ∈ vs, r.IsVocabulary v := by
  induction h with
  | nil => cases hr
  | cons hv _ ih =>
    rcases List.mem_cons.1 hr with rfl | hr
    · exact ⟨_, List.mem_cons_self, hv⟩
    · obtain ⟨v, hmem, hv⟩ := ih hr
      exact ⟨v, List.mem_cons_of_mem _ hmem, hv⟩

/-- The grammar of an extended lexer has the states of the base, each with the rules of the
extension in front. -/
theorem extend_extends {info : LexerInfo} {d : Definition} {base ext : Lexer}
    (hbase : (Lexer.ofDefinition info d).value = .ok base)
    (hext : (x.extend base).value = .ok ext) : x.Extends base.grammar ext.grammar := by
  obtain ⟨rfl, hcompile⟩ := ofDefinition_value hbase
  obtain ⟨d', hstates, hrules, hcompile'⟩ := extend_definition hext
  have hnames : d'.stateNames = base.definition.stateNames := by
    rw [stateNames, hstates, List.map_map]
    rfl
  obtain ⟨slots, hslots, hg, hrules₁⟩ := compile_states hcompile
  obtain ⟨slots', hslots', hg', hrules₂⟩ := compile_states hcompile'
  have hf : ∀ s v, v ∈ listedIn x.rules s → ∀ slot,
      base.definition.compileEntry s (entryOf v) = .ok slot →
        ∃ r : CompiledRule, slot = .rule r ∧ r.IsVocabulary v := by
    intro s v hv slot hslot
    obtain ⟨e, he, -, rfl⟩ := mem_listedIn.1 hv
    obtain ⟨rule, hrule⟩ := hrules e he
    obtain ⟨r, hr, rfl⟩ := Except.map_eq_ok hslot
    obtain ⟨-, -, rfl⟩ := Vocabulary.toRule_eq_ok hrule
    exact ⟨r, rfl, compileRule_isVocabulary hrule hr⟩
  rw [compileEntries, hstates, compileEntry_congr hnames] at hslots'
  have hextended := compileEntries_extended hf hslots hslots'
  refine ⟨hg'.trans (hnames.trans hg.symm), fun i => ⟨?_⟩⟩
  obtain ⟨block, hblock, hvocabulary⟩ := hextended i
  have hrules' := hrules₂ i
  rw [hblock] at hrules'
  obtain ⟨rest, hrest, hspliced⟩ := splices_rules_append block hrules'
  refine ⟨block, rest, hrest, ?_, Splices.padded (fun j => ?_) (hrules₁ i) hspliced⟩
  · rw [stateName?_eq, hg]
    exact hvocabulary
  · obtain ⟨block', hblock', hvocabulary'⟩ := hextended j
    refine ⟨block', hblock', fun r hr => ?_⟩
    obtain ⟨v, hv, hr⟩ := exists_vocabulary hvocabulary' hr
    obtain ⟨s, -, hs⟩ : ∃ s, (base.definition.states.map Prod.fst)[j]? = some s ∧
        v ∈ listedIn x.rules s := by
      cases hs : (base.definition.states.map Prod.fst)[j]? with
      | none => rw [hs] at hv; cases hv
      | some s => rw [hs] at hv; exact ⟨s, rfl, hv⟩
    obtain ⟨e, he, -, rfl⟩ := mem_listedIn.1 hs
    exact ⟨e, he, hr⟩

/-! ### A small extended lexer -/

/-- Plain text with a keyword. -/
def letExtension : Extension where
  base := PlainText.tag
  rules := [{ contexts := [rootState], vocabulary := ⟨.keyword, ["let"]⟩ }]

theorem exists_letLexer : ∃ base ext : Lexer, PlainText.lexer.value = .ok base ∧
    (letExtension.extend base).value = .ok ext ∧ ext.grammar.stateName? 0 = some rootState := by
  have h : (PlainText.lexer.value.toOption.bind fun base =>
      (letExtension.extend base).value.toOption.bind fun ext => ext.grammar.stateName? 0) =
        some rootState := by
    decide +kernel
  obtain ⟨base, hbase, h⟩ := Option.bind_eq_some_iff.1 h
  obtain ⟨ext, hext, h⟩ := Option.bind_eq_some_iff.1 h
  exact ⟨base, ext, Except.eq_ok_of_toOption hbase, Except.eq_ok_of_toOption hext, h⟩

end Extension

end Highlighting
