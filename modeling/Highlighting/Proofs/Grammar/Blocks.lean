import Mathlib.Data.List.Nodup
import Highlighting.Extension.Basic
import Highlighting.Proofs.Grammar.Edits
import Highlighting.Proofs.Vocabulary

/-!
# Where the rules of an extension go

The block of a state has the rules that name the state as a context, in the order in which they are
listed (`blockOf_blocksFrom`), and each block is put in front of what its state has
(`prependBlocks_eq_ok_iff`).  So an extension can be applied when its vocabularies are accepted and
its contexts are declared, and changes nothing else (`applyTo_eq_ok_iff`).  What it puts in front
depends on its rules only, so that extensions that are applied one after the other are one
(`applyTo_layers`).
-/

namespace Highlighting

namespace Extension

/-- The vocabularies that go into a state, one for each time that a rule names it. -/
def listedIn (rules : List ExtensionRule) (state : String) : List Vocabulary :=
  rules.flatMap fun r => (r.contexts.filter (· == state)).map fun _ => r.vocabulary

/-- The entry of a vocabulary. -/
def entryOf (v : Vocabulary) : Entry := .rule (.token v.pattern v.category)

/-- The block of a state. -/
def blockOf (blocks : List (String × List Entry)) (state : String) : List Entry :=
  (blocks.lookup state).getD []

variable {blocks blocks' : List (String × List Entry)} {rules : List ExtensionRule}
  {state : String} {entry : Entry}

theorem blockOf_cons (s : String) (entries : List Entry) (blocks : List (String × List Entry)) :
    blockOf ((s, entries) :: blocks) state =
      if state = s then entries else blockOf blocks state := by
  rw [blockOf, List.lookup_cons]
  by_cases h : state = s
  · rw [h, if_pos rfl, beq_self_eq_true]
    rfl
  · rw [if_neg h, beq_eq_false_iff_ne.2 h, blockOf]

theorem blockOf_addToBlock (s : String) (entry : Entry) (blocks : List (String × List Entry)) :
    blockOf (addToBlock s entry blocks) state =
      blockOf blocks state ++ if s = state then [entry] else [] := by
  induction blocks with
  | nil =>
    rw [addToBlock, blockOf_cons]
    by_cases h : s = state
    · rw [if_pos h, if_pos h.symm]
      rfl
    · rw [if_neg h, if_neg (Ne.symm h)]
      rfl
  | cons b blocks ih =>
    obtain ⟨key, entries⟩ := b
    rw [addToBlock, blockOf_cons]
    split
    · next hkey =>
      obtain rfl : key = s := by simpa using hkey
      rw [blockOf_cons]
      by_cases h : state = key
      · rw [if_pos h, if_pos h, if_pos h.symm]
      · rw [if_neg h, if_neg h, if_neg (Ne.symm h), List.append_nil]
    · next hkey =>
      have hkey' : key ≠ s := by simpa using hkey
      rw [blockOf_cons, ih]
      by_cases h : state = key
      · rw [if_pos h, if_pos h, if_neg (by rw [h]; exact Ne.symm hkey'), List.append_nil]
      · rw [if_neg h, if_neg h]

theorem keys_addToBlock (state : String) (entry : Entry) (blocks : List (String × List Entry)) :
    (addToBlock state entry blocks).map Prod.fst =
      if state ∈ blocks.map Prod.fst then blocks.map Prod.fst
      else blocks.map Prod.fst ++ [state] := by
  induction blocks with
  | nil => rfl
  | cons b blocks ih =>
    rw [addToBlock]
    by_cases h : b.1 = state
    · rw [if_pos (beq_iff_eq.2 h), if_pos (show state ∈ (b :: blocks).map Prod.fst by simp [h])]
      rfl
    · rw [if_neg (by simpa using h), List.map_cons, List.map_cons, ih]
      simp only [List.mem_cons, Ne.symm h, false_or]
      split <;> rfl

theorem mem_keys_addToBlock {s key : String} :
    key ∈ (addToBlock s entry blocks).map Prod.fst ↔ key = s ∨ key ∈ blocks.map Prod.fst := by
  rw [keys_addToBlock]
  split
  · next hs => exact ⟨.inr, fun h => h.elim (fun heq => heq ▸ hs) id⟩
  · rw [List.mem_append, List.mem_singleton, or_comm]

theorem nodup_keys_addToBlock (s : String) (entry : Entry) (h : (blocks.map Prod.fst).Nodup) :
    ((addToBlock s entry blocks).map Prod.fst).Nodup := by
  rw [keys_addToBlock]
  split
  · exact h
  · next hs =>
    rw [← List.concat_eq_append]
    exact h.concat hs

theorem blockOf_foldl (contexts : List String) (blocks : List (String × List Entry)) :
    blockOf (contexts.foldl (fun bs s => addToBlock s entry bs) blocks) state =
      blockOf blocks state ++ (contexts.filter (· == state)).map fun _ => entry := by
  induction contexts generalizing blocks with
  | nil => simp
  | cons s contexts ih =>
    rw [List.foldl_cons, ih, blockOf_addToBlock, List.append_assoc, List.filter_cons]
    by_cases h : s = state
    · rw [if_pos h, if_pos (beq_iff_eq.2 h)]
      rfl
    · rw [if_neg h, if_neg (by simpa using h)]
      rfl

theorem nodup_keys_foldl (contexts : List String) (h : (blocks.map Prod.fst).Nodup) :
    ((contexts.foldl (fun bs s => addToBlock s entry bs) blocks).map Prod.fst).Nodup := by
  induction contexts generalizing blocks with
  | nil => exact h
  | cons s contexts ih => exact ih (nodup_keys_addToBlock s entry h)

/-- The blocks that rules make: each state is named once, and its block has the entries of the
vocabularies that go into it, in order. -/
theorem blockOf_blocksFrom (h : blocksFrom blocks rules = .ok blocks')
    (hkeys : (blocks.map Prod.fst).Nodup) :
    (blocks'.map Prod.fst).Nodup ∧
      (∀ state, blockOf blocks' state =
        blockOf blocks state ++ (listedIn rules state).map entryOf) ∧
      ∀ r ∈ rules, ∃ rule, r.vocabulary.toRule = .ok rule := by
  induction rules generalizing blocks with
  | nil =>
    obtain rfl := Except.ok.inj (show Except.ok blocks = Except.ok blocks' from h)
    exact ⟨hkeys, by simp [listedIn], by simp⟩
  | cons r rules ih =>
    rw [blocksFrom] at h
    obtain ⟨rule, hrule, h⟩ := Except.bind_eq_ok h
    obtain ⟨hkeys', hblocks, hrules⟩ := ih h (nodup_keys_foldl r.contexts hkeys)
    refine ⟨hkeys', fun state => ?_, List.forall_mem_cons.2 ⟨⟨rule, hrule⟩, hrules⟩⟩
    obtain ⟨-, -, rfl⟩ := Vocabulary.toRule_eq_ok hrule
    rw [hblocks, blockOf_foldl, List.append_assoc, listedIn, listedIn, List.flatMap_cons,
      List.map_append, List.map_map]
    rfl

theorem modifyState_states (d : Definition) (s : String) (entries : List Entry) :
    (d.modifyState s (entries ++ ·)).states =
      d.states.map fun t => (t.1, (if t.1 = s then entries else []) ++ t.2) := by
  rw [Definition.modifyState]
  refine List.map_congr_left fun t _ => ?_
  by_cases h : t.1 = s
  · have hbeq : (t.1 == s) = true := beq_iff_eq.2 h
    rw [if_pos hbeq, if_pos h]
  · have hbeq : ¬ (t.1 == s) = true := by simpa using h
    rw [if_neg hbeq, if_neg h]
    rfl

theorem blockOf_eq_nil {s : String} (h : s ∉ blocks.map Prod.fst) : blockOf blocks s = [] := by
  have hnone : blocks.lookup s = none := by
    rw [List.lookup_eq_none_iff]
    intro p hp
    refine bne_iff_ne.2 fun heq => h ?_
    rw [heq]
    exact List.mem_map_of_mem hp
  rw [blockOf, hnone]
  rfl

variable {d d' : Definition}

/-- Blocks can be prepended when their states are declared, and then stand in front of what the
states have. -/
theorem prependBlocks_eq_ok_iff (hkeys : (blocks.map Prod.fst).Nodup) :
    (prependBlocks d blocks).value = (d', .ok ()) ↔
      (∀ state ∈ blocks.map Prod.fst, state ∈ d.stateNames) ∧
        d' = { d with states := d.states.map fun s => (s.1, blockOf blocks s.1 ++ s.2) } := by
  induction blocks generalizing d with
  | nil =>
    have hsame : { d with states := d.states.map fun s => (s.1, blockOf [] s.1 ++ s.2) } = d :=
      congrArg (Definition.mk d.name) (List.map_id' d.states)
    rw [hsame]
    constructor
    · intro h
      exact ⟨by simp, (Prod.mk.inj h).1.symm⟩
    · rintro ⟨-, rfl⟩
      rfl
  | cons b blocks ih =>
    obtain ⟨s, entries⟩ := b
    obtain ⟨hs, hkeys⟩ := List.nodup_cons.1 hkeys
    rw [prependBlocks, Logged.value_bind, Definition.prepend, Definition.prepend?]
    dsimp only
    by_cases hstate : d.hasState s = true
    · rw [if_pos hstate]
      dsimp only
      rw [ih hkeys, Definition.stateNames_modifyState, List.map_cons, List.forall_mem_cons,
        modifyState_states, List.map_map]
      have hblocks : ((fun t => (t.1, blockOf blocks t.1 ++ t.2)) ∘
          fun t : String × List Entry => (t.1, (if t.1 = s then entries else []) ++ t.2)) =
          fun t => (t.1, blockOf ((s, entries) :: blocks) t.1 ++ t.2) := by
        funext t
        rw [Function.comp_apply, blockOf_cons]
        by_cases ht : t.1 = s
        · rw [if_pos ht, if_pos ht, blockOf_eq_nil (ht ▸ hs)]
          rfl
        · rw [if_neg ht, if_neg ht]
          rfl
      rw [hblocks]
      exact (and_congr_left' (and_iff_right (Definition.hasState_iff.1 hstate))).symm
    · rw [if_neg hstate]
      constructor
      · intro h
        cases (Prod.mk.inj h).2
      · rintro ⟨hdeclared, -⟩
        exact (hstate (Definition.hasState_iff.2 (hdeclared s List.mem_cons_self))).elim

/-! ### Whole extensions -/

theorem exists_blocksFrom (h : ∀ r ∈ rules, ∃ rule, r.vocabulary.toRule = .ok rule)
    (blocks : List (String × List Entry)) : ∃ blocks', blocksFrom blocks rules = .ok blocks' := by
  induction rules generalizing blocks with
  | nil => exact ⟨blocks, rfl⟩
  | cons r rules ih =>
    obtain ⟨⟨rule, hrule⟩, hrules⟩ := List.forall_mem_cons.1 h
    rw [blocksFrom, hrule]
    exact ih hrules _

theorem mem_keys_foldl {contexts : List String} {key : String} :
    key ∈ (contexts.foldl (fun bs s => addToBlock s entry bs) blocks).map Prod.fst ↔
      key ∈ contexts ∨ key ∈ blocks.map Prod.fst := by
  induction contexts generalizing blocks with
  | nil => simp
  | cons s contexts ih => rw [List.foldl_cons, ih, mem_keys_addToBlock, List.mem_cons, or_left_comm,
      or_assoc]

/-- The blocks of rules are those of their contexts. -/
theorem mem_keys_blocksFrom (h : blocksFrom blocks rules = .ok blocks') {key : String} :
    key ∈ blocks'.map Prod.fst ↔ key ∈ blocks.map Prod.fst ∨ ∃ r ∈ rules, key ∈ r.contexts := by
  induction rules generalizing blocks with
  | nil =>
    obtain rfl := Except.ok.inj (show Except.ok blocks = Except.ok blocks' from h)
    simp
  | cons r rules ih =>
    rw [blocksFrom] at h
    obtain ⟨rule, -, h⟩ := Except.bind_eq_ok h
    rw [ih h, mem_keys_foldl, List.exists_mem_cons_iff, or_comm (a := key ∈ r.contexts), or_assoc]

/-- The vocabularies of rules are accepted, and the states that they go into are declared. -/
structure Fit (rules : List ExtensionRule) (d : Definition) : Prop where
  accepted : ∀ r ∈ rules, ∃ rule, r.vocabulary.toRule = .ok rule
  declared : ∀ r ∈ rules, ∀ state ∈ r.contexts, state ∈ d.stateNames

/-- A definition with the entries of rules in front of what its states have. -/
def layered (rules : List ExtensionRule) (d : Definition) : Definition :=
  { d with states := d.states.map fun s => (s.1, (listedIn rules s.1).map entryOf ++ s.2) }

theorem stateNames_layered (rules : List ExtensionRule) (d : Definition) :
    (layered rules d).stateNames = d.stateNames := by
  rw [layered, Definition.stateNames, Definition.stateNames, List.map_map]
  rfl

/-- What an extension makes of a definition. -/
theorem applyTo_eq_ok_iff {x : Extension} :
    (x.applyTo d).value = (d', .ok ()) ↔ Fit x.rules d ∧ d' = layered x.rules d := by
  rw [applyTo, blocks]
  cases hblocks : blocksFrom [] x.rules with
  | error e =>
    constructor
    · intro h
      cases (Prod.mk.inj h).2
    · rintro ⟨hfit, -⟩
      obtain ⟨blocks, hok⟩ := exists_blocksFrom hfit.accepted []
      cases hblocks.symm.trans hok
  | ok blocks =>
    obtain ⟨hkeys, hblock, haccepted⟩ := blockOf_blocksFrom hblocks .nil
    have hlayered : { d with states := d.states.map fun s => (s.1, blockOf blocks s.1 ++ s.2) } =
        layered x.rules d := by
      rw [layered]
      congr 1
      refine List.map_congr_left fun s _ => ?_
      rw [hblock]
      rfl
    dsimp only
    rw [prependBlocks_eq_ok_iff hkeys, hlayered]
    refine and_congr_left' ⟨fun h => ⟨haccepted, fun r hr state hstate => ?_⟩, fun h state hkey => ?_⟩
    · exact h state ((mem_keys_blocksFrom hblocks).2 (.inr ⟨r, hr, hstate⟩))
    · rcases (mem_keys_blocksFrom hblocks).1 hkey with hnone | ⟨r, hr, hstate⟩
      · cases hnone
      · exact h.declared r hr state hstate

/-! ### One extension after another -/

theorem listedIn_append (rules more : List ExtensionRule) (state : String) :
    listedIn (rules ++ more) state = listedIn rules state ++ listedIn more state :=
  List.flatMap_append

theorem layered_append (rules more : List ExtensionRule) (d : Definition) :
    layered (rules ++ more) d = layered rules (layered more d) := by
  simp only [layered, List.map_map, listedIn_append, List.map_append, List.append_assoc]
  rfl

/-- Rules fit under others as they do without them, because the states keep their names. -/
theorem fit_append_iff {rules more : List ExtensionRule} :
    Fit (rules ++ more) d ↔ Fit more d ∧ Fit rules (layered more d) := by
  constructor
  · rintro ⟨haccepted, hdeclared⟩
    rw [List.forall_mem_append] at haccepted hdeclared
    refine ⟨⟨haccepted.2, hdeclared.2⟩, ⟨haccepted.1, ?_⟩⟩
    rw [stateNames_layered]
    exact hdeclared.1
  · rintro ⟨hmore, hrules⟩
    have hdeclared := hrules.declared
    rw [stateNames_layered] at hdeclared
    exact ⟨List.forall_mem_append.2 ⟨hrules.accepted, hmore.accepted⟩,
      List.forall_mem_append.2 ⟨hdeclared, hmore.declared⟩⟩

theorem listedIn_eq_nil {rules : List ExtensionRule} {state : String}
    (h : ∀ r ∈ rules, state ∉ r.contexts) : listedIn rules state = [] := by
  refine List.flatMap_eq_nil_iff.2 fun r hr => ?_
  rw [List.map_eq_nil_iff, List.filter_eq_nil_iff]
  intro s hs heq
  exact h r hr (beq_iff_eq.1 heq ▸ hs)

/-- An extension that is applied leaves the names and the order of the states, and puts in front of
each state the entries of the rules that list it, in their order and once for each time that they
list it.  To apply another one on top is to apply one with the rules of both, the later first. -/
theorem applyTo_layers {x : Extension} (h : (x.applyTo d).value = (d', .ok ())) :
    d'.name = d.name ∧ d'.stateNames = d.stateNames ∧
      d'.states = d.states.map (fun s => (s.1, (listedIn x.rules s.1).map entryOf ++ s.2)) ∧
      (∀ s ∈ d.states, (∀ r ∈ x.rules, s.1 ∉ r.contexts) → s ∈ d'.states) ∧
      ∀ (y : Extension) (d'' : Definition), (y.applyTo d').value = (d'', .ok ()) ↔
        (({ x with rules := y.rules ++ x.rules } : Extension).applyTo d).value = (d'', .ok ()) := by
  obtain ⟨hfit, rfl⟩ := applyTo_eq_ok_iff.1 h
  refine ⟨rfl, stateNames_layered x.rules d, rfl, fun s hs hunlisted => ?_, fun y d'' => ?_⟩
  · refine List.mem_map.2 ⟨s, hs, ?_⟩
    rw [listedIn_eq_nil hunlisted]
    rfl
  · rw [applyTo_eq_ok_iff, applyTo_eq_ok_iff, layered_append, fit_append_iff, and_iff_right hfit]

/-- Two states, one of them with a rule. -/
def twoStates : Definition := ⟨"two", [(rootState, [.rule (.token "x" .name)]), ("string", [])]⟩

/-- The word `init` for both states, the first of them twice, and the word `run` for the first. -/
def namedTwice : Extension :=
  { base := "two"
    rules := [⟨[rootState, "string", rootState], ⟨.keyword, ["init"]⟩⟩,
      ⟨[rootState], ⟨.nameFunction, ["run"]⟩⟩] }

theorem applyTo_layers_namedTwice : ∃ d', (namedTwice.applyTo twoStates).value = (d', .ok ()) ∧
    d'.states = [(rootState, [entryOf ⟨.keyword, ["init"]⟩, entryOf ⟨.keyword, ["init"]⟩,
        entryOf ⟨.nameFunction, ["run"]⟩, .rule (.token "x" .name)]),
      ("string", [entryOf ⟨.keyword, ["init"]⟩])] := by
  have hok : (namedTwice.applyTo twoStates).value.2.toOption = some () := by
    decide +kernel
  have hvalue : (namedTwice.applyTo twoStates).value =
      ((namedTwice.applyTo twoStates).value.1, .ok ()) :=
    Prod.ext rfl (Except.eq_ok_of_toOption hok)
  obtain ⟨-, -, hstates, -⟩ := applyTo_layers hvalue
  refine ⟨_, hvalue, ?_⟩
  rw [hstates]
  rfl

end Extension

end Highlighting
