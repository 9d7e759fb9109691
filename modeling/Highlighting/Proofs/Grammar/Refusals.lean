import Highlighting.Proofs.Grammar.Blocks

/-!
# What a refused extension leaves behind

The vocabularies of an extension are looked at before anything is prepended, so a definition stays
as it was when one of them is refused.  The blocks are then prepended one after the other, and a
state that is not declared stops them: what was prepended before stays (`applyTo_eq_error_iff`).
-/

namespace Highlighting

namespace Extension

variable {blocks blocks' : List (String × List Entry)} {rules : List ExtensionRule}
  {d d' : Definition} {e : GrammarError}

/-! ### The order of the blocks -/

/-- A name that is added to a block is listed behind the names that were there. -/
theorem keys_addToBlock_eraseDups {names : List String} (state : String) (entry : Entry)
    (h : blocks.map Prod.fst = names.eraseDups) :
    (addToBlock state entry blocks).map Prod.fst = (names ++ [state]).eraseDups := by
  rw [keys_addToBlock, eraseDups_concat, h]
  simp only [List.mem_eraseDups]

theorem keys_foldl {names : List String} (contexts : List String) (entry : Entry)
    (h : blocks.map Prod.fst = names.eraseDups) :
    (contexts.foldl (fun bs s => addToBlock s entry bs) blocks).map Prod.fst =
      (names ++ contexts).eraseDups := by
  induction contexts generalizing blocks names with
  | nil => rw [List.append_nil]; exact h
  | cons s contexts ih =>
    rw [List.foldl_cons, ih (keys_addToBlock_eraseDups s entry h), List.append_assoc,
      List.singleton_append]

/-- The states of the blocks, in the order in which the rules first list them. -/
theorem keys_blocksFrom {names : List String} (h : blocksFrom blocks rules = .ok blocks')
    (hnames : blocks.map Prod.fst = names.eraseDups) :
    blocks'.map Prod.fst = (names ++ rules.flatMap (·.contexts)).eraseDups := by
  induction rules generalizing blocks names with
  | nil =>
    obtain rfl := Except.ok.inj (show Except.ok blocks = Except.ok blocks' from h)
    rw [List.flatMap_nil, List.append_nil]
    exact hnames
  | cons r rules ih =>
    rw [blocksFrom] at h
    obtain ⟨rule, -, h⟩ := Except.bind_eq_ok h
    rw [ih h (keys_foldl r.contexts (.rule rule) hnames), List.append_assoc, List.flatMap_cons]

/-! ### Where the prepending stops -/

/-- The vocabularies are looked at in order, and the first that is refused is reported. -/
theorem blocksFrom_eq_error_iff (rules : List ExtensionRule)
    (blocks : List (String × List Entry)) :
    blocksFrom blocks rules = .error e ↔ ∃ before r after, rules = before ++ r :: after ∧
      (∀ q ∈ before, ∃ rule, q.vocabulary.toRule = .ok rule) ∧
        r.vocabulary.toRule = .error e := by
  induction rules generalizing blocks with
  | nil =>
    constructor
    · intro h
      cases h
    · rintro ⟨before, r, after, h, -⟩
      cases List.append_eq_nil_iff.1 h.symm |>.2
  | cons q rules ih =>
    rw [blocksFrom]
    cases hq : q.vocabulary.toRule with
    | error e' =>
      constructor
      · intro h
        obtain rfl := Except.error.inj (show Except.error e' = Except.error e from h)
        exact ⟨[], q, rules, rfl, by simp, hq⟩
      · rintro ⟨before, r, after, hrules, hbefore, hr⟩
        rcases List.cons_eq_append_iff.1 hrules with ⟨rfl, hcons⟩ | ⟨before', rfl, -⟩
        · obtain ⟨rfl, -⟩ := List.cons_eq_cons.1 hcons
          exact congrArg _ (Except.error.inj (hq.symm.trans hr))
        · obtain ⟨rule, hrule⟩ := hbefore q List.mem_cons_self
          cases hq.symm.trans hrule
    | ok rule =>
      refine (ih _).trans ⟨?_, ?_⟩
      · rintro ⟨before, r, after, rfl, hbefore, hr⟩
        exact ⟨q :: before, r, after, rfl, List.forall_mem_cons.2 ⟨⟨rule, hq⟩, hbefore⟩, hr⟩
      · rintro ⟨before, r, after, hrules, hbefore, hr⟩
        rcases List.cons_eq_append_iff.1 hrules with ⟨rfl, hcons⟩ | ⟨before', rfl, hrules⟩
        · obtain ⟨rfl, -⟩ := List.cons_eq_cons.1 hcons
          cases hq.symm.trans hr
        · exact ⟨before', r, after, (List.cons_eq_cons.1 hrules).2, (List.forall_mem_cons.1 hbefore).2, hr⟩

theorem prependBlocks_append {blocks more : List (String × List Entry)}
    (h : (prependBlocks d blocks).value = (d', .ok ())) :
    (prependBlocks d (blocks ++ more)).value = (prependBlocks d' more).value := by
  induction blocks generalizing d with
  | nil =>
    obtain ⟨rfl, -⟩ := Prod.mk.inj h
    rfl
  | cons b blocks ih =>
    obtain ⟨state, entries⟩ := b
    rw [prependBlocks, Logged.value_bind] at h
    rw [List.cons_append, prependBlocks, Logged.value_bind]
    cases hprepend : (d.prepend state entries).value with
    | ok next =>
      rw [hprepend] at h
      exact ih h
    | error e =>
      rw [hprepend] at h
      cases (Prod.mk.inj h).2

theorem prependBlocks_of_not_mem {state : String} (h : state ∉ d.stateNames)
    (entries : List Entry) (blocks : List (String × List Entry)) :
    (prependBlocks d ((state, entries) :: blocks)).value =
      (d, .error (.unknownState state d.name)) := by
  rw [prependBlocks, Logged.value_bind, Definition.prepend, Definition.prepend?,
    if_neg fun hstate => h (Definition.hasState_iff.1 hstate)]
  rfl

theorem blockOf_append {state : String} (h : state ∈ blocks.map Prod.fst)
    (more : List (String × List Entry)) :
    blockOf (blocks ++ more) state = blockOf blocks state := by
  induction blocks with
  | nil => cases h
  | cons b blocks ih =>
    rw [List.cons_append, blockOf_cons, blockOf_cons]
    split
    · rfl
    · next hne => exact ih ((List.mem_cons.1 h).resolve_left hne)

/-- A definition with the entries of rules in front of what the given states have. -/
def layeredIn (states : List String) (rules : List ExtensionRule) (d : Definition) : Definition :=
  { d with states := d.states.map fun s =>
      if s.1 ∈ states then (s.1, (listedIn rules s.1).map entryOf ++ s.2) else s }

/-- The first state that is not declared stops the extension.  The blocks of the states that are
listed before it are there already. -/
theorem applyTo_of_not_mem {x : Extension} {before after : List String} {state : String}
    (haccepted : ∀ r ∈ x.rules, ∃ rule, r.vocabulary.toRule = .ok rule)
    (hcontexts : x.rules.flatMap (·.contexts) = before ++ state :: after)
    (hbefore : ∀ s ∈ before, s ∈ d.stateNames) (hstate : state ∉ d.stateNames) :
    (x.applyTo d).value =
      (layeredIn before x.rules d, .error (.unknownState state d.name)) := by
  obtain ⟨blocks, hblocks⟩ := exists_blocksFrom haccepted []
  obtain ⟨hnodup, hblock, -⟩ := blockOf_blocksFrom hblocks .nil
  have hnone : ([] : List (String × List Entry)).map Prod.fst = ([] : List String).eraseDups := rfl
  have hkeys := keys_blocksFrom hblocks hnone
  rw [List.nil_append, hcontexts, List.eraseDups_append, List.cons_removeAll,
    if_pos (by simpa using fun hmem => hstate (hbefore state hmem)), List.eraseDups_cons] at hkeys
  obtain ⟨first, rest, rfl, hfirst, hrest⟩ := List.map_eq_append_iff.1 hkeys
  obtain ⟨⟨_, entries⟩, rest, rfl, rfl, -⟩ := List.map_eq_cons_iff.1 hrest
  have hmem : ∀ s, s ∈ first.map Prod.fst ↔ s ∈ before := fun s => by
    rw [hfirst, List.mem_eraseDups]
  rw [List.map_append] at hnodup
  -- the blocks in front of the stop are prepended as if they were all
  have hprepended := (prependBlocks_eq_ok_iff (d := d) hnodup.of_append_left).2
    ⟨fun s hs => hbefore s ((hmem s).1 hs), rfl⟩
  have hlayered : { d with states := d.states.map fun s => (s.1, blockOf first s.1 ++ s.2) } =
      layeredIn before x.rules d := by
    refine congrArg (Definition.mk d.name) (List.map_congr_left fun s _ => ?_)
    by_cases hs : s.1 ∈ before
    · rw [if_pos hs, ← blockOf_append ((hmem s.1).2 hs), hblock]
      rfl
    · rw [if_neg hs, blockOf_eq_nil (mt (hmem s.1).1 hs)]
      rfl
  have hnames : (layeredIn before x.rules d).stateNames = d.stateNames := by
    rw [layeredIn, Definition.stateNames, List.map_map]
    refine List.map_congr_left fun s _ => ?_
    rw [Function.comp_apply]
    split <;> rfl
  rw [hlayered] at hprepended
  rw [applyTo, Extension.blocks, hblocks]
  dsimp only
  rw [prependBlocks_append hprepended, prependBlocks_of_not_mem (hnames ▸ hstate)]
  rfl

/-- An extension that cannot be applied was refused for a vocabulary, before anything was prepended,
or stopped at a state. -/
theorem refused_of_applyTo {x : Extension} (h : (x.applyTo d).value = (d', .error e)) :
    (∃ before r after, x.rules = before ++ r :: after ∧
        (∀ q ∈ before, ∃ rule, q.vocabulary.toRule = .ok rule) ∧
        r.vocabulary.toRule = .error e ∧ d' = d) ∨
      (∀ r ∈ x.rules, ∃ rule, r.vocabulary.toRule = .ok rule) ∧
        ∃ before state after, x.rules.flatMap (·.contexts) = before ++ state :: after ∧
          (∀ s ∈ before, s ∈ d.stateNames) ∧ state ∉ d.stateNames ∧
          e = .unknownState state d.name ∧ d' = layeredIn before x.rules d := by
  cases hblocks : blocksFrom [] x.rules with
  | error e' =>
    rw [applyTo, blocks, hblocks] at h
    obtain ⟨rfl, he⟩ := Prod.mk.inj h
    obtain rfl := Except.error.inj he
    obtain ⟨before, r, after, hrules, hbefore, hr⟩ := (blocksFrom_eq_error_iff _ _).1 hblocks
    exact .inl ⟨before, r, after, hrules, hbefore, hr, rfl⟩
  | ok blocks =>
    obtain ⟨-, -, haccepted⟩ := blockOf_blocksFrom hblocks .nil
    refine .inr ⟨haccepted, ?_⟩
    cases hfind : (x.rules.flatMap (·.contexts)).find? fun s => !d.hasState s with
    | none =>
      have hfit : Fit x.rules d := ⟨haccepted, fun r hr state hstate => by
        have := List.find?_eq_none.1 hfind state (List.mem_flatMap.2 ⟨r, hr, hstate⟩)
        exact Definition.hasState_iff.1 (by simpa using this)⟩
      cases (Prod.mk.inj (h.symm.trans (applyTo_eq_ok_iff.2 ⟨hfit, rfl⟩))).2
    | some state =>
      obtain ⟨hstate, before, after, hcontexts, hbefore⟩ := List.find?_eq_some_iff_append.1 hfind
      have hbefore' : ∀ s ∈ before, s ∈ d.stateNames := fun s hs =>
        Definition.hasState_iff.1 (by simpa using hbefore s hs)
      have hstate' : state ∉ d.stateNames := fun hmem => by
        rw [Definition.hasState_iff.2 hmem] at hstate
        cases hstate
      obtain ⟨rfl, he⟩ :=
        Prod.mk.inj (h.symm.trans (applyTo_of_not_mem haccepted hcontexts hbefore' hstate'))
      exact ⟨before, state, after, hcontexts, hbefore', hstate', Except.error.inj he, rfl⟩

/-- An extension is refused for its first vocabulary that is not accepted, and then leaves the
definition as it was.  Or its vocabularies are accepted and it is refused for the first state that
it lists and that is not declared: then the states that it lists before have the entries of its
rules in front, and nothing else has changed. -/
theorem applyTo_eq_error_iff (x : Extension) (d d' : Definition) (e : GrammarError) :
    (x.applyTo d).value = (d', .error e) ↔
      (∃ before r after, x.rules = before ++ r :: after ∧
          (∀ q ∈ before, ∃ rule, q.vocabulary.toRule = .ok rule) ∧
          r.vocabulary.toRule = .error e ∧ d' = d) ∨
        (∀ r ∈ x.rules, ∃ rule, r.vocabulary.toRule = .ok rule) ∧
          ∃ before state after, x.rules.flatMap (·.contexts) = before ++ state :: after ∧
            (∀ s ∈ before, s ∈ d.stateNames) ∧ state ∉ d.stateNames ∧
            e = .unknownState state d.name ∧ d' = layeredIn before x.rules d := by
  refine ⟨refused_of_applyTo, ?_⟩
  rintro (⟨before, r, after, hrules, hbefore, hr, rfl⟩ |
    ⟨haccepted, before, state, after, hcontexts, hbefore, hstate, rfl, rfl⟩)
  · rw [applyTo, blocks, (blocksFrom_eq_error_iff _ _).2 ⟨before, r, after, hrules, hbefore, hr⟩]
    rfl
  · exact applyTo_of_not_mem haccepted hcontexts hbefore hstate

/-- The word `init` for a state that is declared and then for one that is not. -/
def halfDeclared : Extension :=
  { base := "two", rules := [⟨[rootState, "statement"], ⟨.keyword, ["init"]⟩⟩] }

/-- A definition is not as it was when the extension is refused. -/
theorem applyTo_leaves_block :
    ∃ d' e, (halfDeclared.applyTo twoStates).value = (d', .error e) ∧
      d'.entries? rootState = some [entryOf ⟨.keyword, ["init"]⟩, .rule (.token "x" .name)] ∧
      twoStates.entries? rootState = some [.rule (.token "x" .name)] := by
  refine ⟨layeredIn [rootState] halfDeclared.rules twoStates, .unknownState "statement" "two",
    applyTo_of_not_mem ?_ rfl ?_ ?_, rfl, rfl⟩
  · intro r hr
    obtain rfl := List.mem_singleton.1 hr
    exact ⟨_, rfl⟩
  · decide
  · decide

end Extension

end Highlighting
