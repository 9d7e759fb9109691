import Highlighting.Proofs.Grammar.Circles

/-!
# Entries that can stand in a state

An entry is compiled exactly if it can stand in its state (`Definition.Admits`): a rule becomes its
wrapped patterns with indices for the states that it refers to (`Rule.CompilesTo`), a splice the
index of its state.  Otherwise the error tells the first condition that the entry does not meet
(`Definition.Rejects`).
-/

namespace Highlighting

/-! ### References -/

/-- The states of two transitions are related. -/
inductive Transition.Lift {σ τ : Type} (rel : σ → τ → Prop) :
    Transition σ → Transition τ → Prop where
  | stay : Lift rel .stay .stay
  | pop : Lift rel .pop .pop
  | push {s : σ} {t : τ} (h : rel s t) : Lift rel (.push s) (.push t)

/-- The states of two actions of groups are related. -/
inductive GroupAction.Lift {σ τ : Type} (rel : σ → τ → Prop) :
    GroupAction σ → GroupAction τ → Prop where
  | token (category : Category) : Lift rel (.token category) (.token category)
  | keywords (table : KeywordTable) : Lift rel (.keywords table) (.keywords table)
  | scan {s : σ} {t : τ} (h : rel s t) : Lift rel (.scan s) (.scan t)

/-- The states of two actions are related. -/
inductive Action.Lift {σ τ : Type} (rel : σ → τ → Prop) : Action σ → Action τ → Prop where
  | token (category : Category) : Lift rel (.token category) (.token category)
  | keywords (table : KeywordTable) : Lift rel (.keywords table) (.keywords table)
  | groups {as : List (GroupAction σ)} {bs : List (GroupAction τ)}
      (h : List.Forall₂ (GroupAction.Lift rel) as bs) : Lift rel (.groups as) (.groups bs)

/-- A rule is compiled into its wrapped patterns, and its states into indices. -/
structure Rule.CompilesTo (index : String → Option Nat) (r : Rule) (c : CompiledRule) : Prop where
  source : c.source = r.pattern
  atStart : Matcher.parse (CompiledRule.startText r.pattern) = .ok c.atStart
  inContext : Matcher.parse (CompiledRule.contextText r.pattern) = .ok c.inContext
  transition : r.transition.Lift (fun state i => index state = some i) c.transition
  action : r.action.Lift (fun state i => index state = some i) c.action

/-- Elements of two lists that are related element by element. -/
theorem getElem?_of_forall₂ {α β : Type} {rel : α → β → Prop} {l : List α} {l' : List β}
    (h : List.Forall₂ rel l l') {i : Nat} {a : α} (ha : l[i]? = some a) :
    ∃ b, l'[i]? = some b ∧ rel a b := by
  induction h generalizing i with
  | nil => cases ha
  | cons hrel _ ih =>
    cases i with
    | zero =>
      obtain rfl := Option.some.inj ha
      exact ⟨_, rfl, hrel⟩
    | succ i => exact ih ha

theorem exists_of_forall₂ {α β : Type} {rel : α → β → Prop} {l : List α} {l' : List β}
    (h : List.Forall₂ rel l l') {a : α} (ha : a ∈ l) : ∃ b ∈ l', rel a b := by
  obtain ⟨i, hi⟩ := List.mem_iff_getElem?.1 ha
  obtain ⟨b, hb, hrel⟩ := getElem?_of_forall₂ h hi
  exact ⟨b, List.mem_of_getElem? hb, hrel⟩

namespace Except

/-- A list that cannot be mapped has a first element that cannot. -/
theorem exists_of_mapM_eq_error {ε α β : Type} {f : α → Except ε β} {l : List α} {e : ε}
    (h : l.mapM f = .error e) : ∃ before a after, l = before ++ a :: after ∧
      (∀ b ∈ before, ∃ y, f b = .ok y) ∧ f a = .error e := by
  induction l with
  | nil => cases h
  | cons a l ih =>
    rw [List.mapM_cons] at h
    rcases bind_eq_error h with hhead | ⟨y, hy, h⟩
    · exact ⟨[], a, l, rfl, by simp, hhead⟩
    · rcases bind_eq_error h with htail | ⟨ys, -, h⟩
      · obtain ⟨before, b, after, rfl, hbefore, hb⟩ := ih htail
        exact ⟨a :: before, b, after, rfl, List.forall_mem_cons.2 ⟨⟨y, hy⟩, hbefore⟩, hb⟩
      · cases h

end Except

namespace Definition

variable {d : Definition} {state target : String} {r : Rule}

/-! ### Entries -/

/-- A rule can stand in a state: its wrapped patterns are patterns, it does not accept the empty
text, and the states that it refers to are declared. -/
structure Fits (d : Definition) (r : Rule) : Prop where
  nonempty : matchesEmpty r.pattern = .ok false
  declared : ∀ s ∈ r.states, s ∈ d.stateNames
  atStart : ∃ m, Matcher.parse (CompiledRule.startText r.pattern) = .ok m
  inContext : ∃ m, Matcher.parse (CompiledRule.contextText r.pattern) = .ok m

/-- An entry can stand in a state. -/
def Admits (d : Definition) : Entry → Prop
  | .rule r => d.Fits r
  | .splice target => target ∈ d.stateNames

/-- Why an entry cannot stand in a state: the first condition that it does not meet. -/
inductive Rejects (d : Definition) (state : String) : Entry → GrammarError → Prop where
  | notPattern {r : Rule} {cause : PatternError} (h : matchesEmpty r.pattern = .error cause) :
      Rejects d state (.rule r) (.invalidPattern state r.pattern cause)
  | acceptsEmpty {r : Rule} (h : matchesEmpty r.pattern = .ok true) :
      Rejects d state (.rule r) (.zeroWidthPattern state r.pattern)
  | refers {r : Rule} {before after : List String} {target : String}
      (hempty : matchesEmpty r.pattern = .ok false) (hstates : r.states = before ++ target :: after)
      (hbefore : ∀ s ∈ before, s ∈ d.stateNames) (h : target ∉ d.stateNames) :
      Rejects d state (.rule r) (.unknownState target state)
  | notAtStart {r : Rule} {cause : PatternError} (hempty : matchesEmpty r.pattern = .ok false)
      (hstates : ∀ s ∈ r.states, s ∈ d.stateNames)
      (h : Matcher.parse (CompiledRule.startText r.pattern) = .error cause) :
      Rejects d state (.rule r) (.invalidPattern state r.pattern cause)
  | notInContext {r : Rule} {cause : PatternError} {m : Matcher}
      (hempty : matchesEmpty r.pattern = .ok false) (hstates : ∀ s ∈ r.states, s ∈ d.stateNames)
      (hstart : Matcher.parse (CompiledRule.startText r.pattern) = .ok m)
      (h : Matcher.parse (CompiledRule.contextText r.pattern) = .error cause) :
      Rejects d state (.rule r) (.invalidPattern state r.pattern cause)
  | splices {target : String} (h : target ∉ d.stateNames) :
      Rejects d state (.splice target) (.unknownState target state)

theorem Rejects.not_admits {entry : Entry} {e : GrammarError} (h : d.Rejects state entry e) :
    ¬ d.Admits entry := by
  intro hadmits
  cases h with
  | notPattern h | acceptsEmpty h =>
    have := hadmits.nonempty
    rw [h] at this
    cases this
  | refers hempty hstates hbefore h => exact h (hadmits.declared _ (by simp [hstates]))
  | notAtStart hempty hstates h =>
    obtain ⟨m, hm⟩ := hadmits.atStart
    rw [h] at hm
    cases hm
  | notInContext hempty hstates hstart h =>
    obtain ⟨m, hm⟩ := hadmits.inContext
    rw [h] at hm
    cases hm
  | splices h => exact h hadmits

/-! ### Compiling entries -/

theorem mem_stateNames_iff : target ∈ d.stateNames ↔ ∃ i, d.index? target = some i := by
  rw [index?_eq, ← Option.isSome_iff_exists, List.findIdx?_isSome, List.any_eq_true]
  simp

theorem resolve_eq_ok {i : Nat} (h : d.resolve state target = .ok i) :
    d.index? target = some i := by
  rw [resolve] at h
  split at h
  · next hi => rw [hi, Except.ok.inj h]
  · cases h

theorem resolve_eq_error {e : GrammarError} (h : d.resolve state target = .error e) :
    target ∉ d.stateNames ∧ e = .unknownState target state := by
  rw [resolve] at h
  split at h
  · cases h
  · next hi =>
    refine ⟨fun hmem => ?_, (Except.error.inj h).symm⟩
    obtain ⟨i, hi'⟩ := mem_stateNames_iff.1 hmem
    rw [hi] at hi'
    cases hi'

theorem resolveTransition_eq_ok {t : Transition String} {t' : Transition Nat}
    (h : d.resolveTransition state t = .ok t') :
    t.Lift (fun s i => d.index? s = some i) t' ∧ ∀ s ∈ t.states, s ∈ d.stateNames := by
  cases t with
  | stay => cases h; exact ⟨.stay, by simp [Transition.states]⟩
  | pop => cases h; exact ⟨.pop, by simp [Transition.states]⟩
  | push target =>
    obtain ⟨i, hi, rfl⟩ := Except.map_eq_ok h
    have hindex := resolve_eq_ok hi
    refine ⟨.push hindex, fun s hs => ?_⟩
    rw [List.mem_singleton.1 hs]
    exact mem_stateNames_iff.2 ⟨i, hindex⟩

theorem resolveTransition_eq_error {t : Transition String} {e : GrammarError}
    (h : d.resolveTransition state t = .error e) :
    ∃ target, t.states = [target] ∧ target ∉ d.stateNames ∧ e = .unknownState target state := by
  cases t with
  | stay | pop => cases h
  | push target => exact ⟨target, rfl, resolve_eq_error (Except.map_eq_error h)⟩

theorem resolveGroup_eq_ok {a : GroupAction String} {a' : GroupAction Nat}
    (h : d.resolveGroup state a = .ok a') :
    a.Lift (fun s i => d.index? s = some i) a' ∧ ∀ s ∈ a.states, s ∈ d.stateNames := by
  cases a with
  | token category => cases h; exact ⟨.token category, by simp [GroupAction.states]⟩
  | keywords table => cases h; exact ⟨.keywords table, by simp [GroupAction.states]⟩
  | scan target =>
    obtain ⟨i, hi, rfl⟩ := Except.map_eq_ok h
    have hindex := resolve_eq_ok hi
    refine ⟨.scan hindex, fun s hs => ?_⟩
    rw [List.mem_singleton.1 hs]
    exact mem_stateNames_iff.2 ⟨i, hindex⟩

theorem resolveGroup_eq_error {a : GroupAction String} {e : GrammarError}
    (h : d.resolveGroup state a = .error e) :
    ∃ target, a.states = [target] ∧ target ∉ d.stateNames ∧ e = .unknownState target state := by
  cases a with
  | token category | keywords table => cases h
  | scan target => exact ⟨target, rfl, resolve_eq_error (Except.map_eq_error h)⟩

theorem resolveAction_eq_ok {a : Action String} {a' : Action Nat}
    (h : d.resolveAction state a = .ok a') :
    a.Lift (fun s i => d.index? s = some i) a' ∧ ∀ s ∈ a.states, s ∈ d.stateNames := by
  cases a with
  | token category => cases h; exact ⟨.token category, by simp [Action.states]⟩
  | keywords table => cases h; exact ⟨.keywords table, by simp [Action.states]⟩
  | groups actions =>
    obtain ⟨as, has, rfl⟩ := Except.map_eq_ok h
    have hall := (Except.forall₂_of_mapM has).imp fun _ _ h => resolveGroup_eq_ok h
    refine ⟨.groups (hall.imp fun _ _ h => h.1), fun s hs => ?_⟩
    obtain ⟨a, ha, hs⟩ := List.mem_flatMap.1 hs
    obtain ⟨-, -, -, hstates⟩ := exists_of_forall₂ hall ha
    exact hstates s hs

theorem resolveAction_eq_error {a : Action String} {e : GrammarError}
    (h : d.resolveAction state a = .error e) :
    ∃ before target after, a.states = before ++ target :: after ∧
      (∀ s ∈ before, s ∈ d.stateNames) ∧ target ∉ d.stateNames ∧
        e = .unknownState target state := by
  cases a with
  | token category | keywords table => cases h
  | groups actions =>
    obtain ⟨before, a, after, rfl, hbefore, ha⟩ :=
      Except.exists_of_mapM_eq_error (Except.map_eq_error h)
    obtain ⟨target, hstates, htarget, rfl⟩ := resolveGroup_eq_error ha
    refine ⟨before.flatMap GroupAction.states, target, after.flatMap GroupAction.states, ?_,
      fun s hs => ?_, htarget, rfl⟩
    · rw [Action.states, List.flatMap_append, List.flatMap_cons, hstates]
      rfl
    · obtain ⟨b, hb, hs⟩ := List.mem_flatMap.1 hs
      obtain ⟨b', hb'⟩ := hbefore b hb
      exact (resolveGroup_eq_ok hb').2 s hs

theorem readPattern_eq_ok {pattern : String} {text : List Char} {m : Matcher}
    (h : readPattern state pattern text = .ok m) : Matcher.parse text = .ok m := by
  rw [readPattern] at h
  split at h
  · next hm => rw [hm, Except.ok.inj h]
  · cases h

theorem readPattern_eq_error {pattern : String} {text : List Char} {e : GrammarError}
    (h : readPattern state pattern text = .error e) :
    ∃ cause, Matcher.parse text = .error cause ∧ e = .invalidPattern state pattern cause := by
  rw [readPattern] at h
  split at h
  · cases h
  · next cause hcause => exact ⟨cause, hcause, (Except.error.inj h).symm⟩

theorem matchesEmpty_of_parse {pattern : String} {m : Matcher}
    (h : Matcher.parse (CompiledRule.wholeText pattern) = .ok m) :
    matchesEmpty pattern = .ok (m.isMatch []) := by
  rw [matchesEmpty, h]
  rfl

theorem compileRule_eq_ok {c : CompiledRule} (h : d.compileRule state r = .ok c) :
    d.Fits r ∧ r.CompilesTo d.index? c := by
  rw [compileRule] at h
  obtain ⟨whole, hwhole, h⟩ := Except.bind_eq_ok h
  have hempty := matchesEmpty_of_parse (readPattern_eq_ok hwhole)
  split at h
  · cases h
  · next hfalse =>
    rw [Bool.eq_false_iff.2 hfalse] at hempty
    obtain ⟨transition, htransition, h⟩ := Except.bind_eq_ok h
    obtain ⟨action, haction, h⟩ := Except.bind_eq_ok h
    obtain ⟨start, hstart, h⟩ := Except.bind_eq_ok h
    obtain ⟨context, hcontext, h⟩ := Except.bind_eq_ok h
    obtain rfl := Except.ok.inj h
    obtain ⟨hpush, hpushed⟩ := resolveTransition_eq_ok htransition
    obtain ⟨hgroups, hscanned⟩ := resolveAction_eq_ok haction
    have hstart := readPattern_eq_ok hstart
    have hcontext := readPattern_eq_ok hcontext
    refine ⟨⟨hempty, fun s hs => ?_, ⟨start, hstart⟩, context, hcontext⟩,
      rfl, hstart, hcontext, hpush, hgroups⟩
    exact (List.mem_append.1 hs).elim (hpushed s) (hscanned s)

theorem compileRule_eq_error {e : GrammarError} (h : d.compileRule state r = .error e) :
    d.Rejects state (.rule r) e := by
  rw [compileRule] at h
  rcases Except.bind_eq_error h with hwhole | ⟨whole, hwhole, h⟩
  · obtain ⟨cause, hcause, rfl⟩ := readPattern_eq_error hwhole
    refine .notPattern ?_
    rw [matchesEmpty, hcause]
    rfl
  have hempty := matchesEmpty_of_parse (readPattern_eq_ok hwhole)
  split at h
  · next htrue =>
    obtain rfl := Except.error.inj h
    exact .acceptsEmpty (htrue ▸ hempty)
  next hfalse =>
  rw [Bool.eq_false_iff.2 hfalse] at hempty
  rcases Except.bind_eq_error h with htransition | ⟨transition, htransition, h⟩
  · obtain ⟨target, hstates, htarget, rfl⟩ := resolveTransition_eq_error htransition
    have hsplit : r.states = [] ++ target :: r.action.states := by
      rw [Rule.states, hstates]
      rfl
    exact .refers hempty hsplit (by simp) htarget
  have hpushed := (resolveTransition_eq_ok htransition).2
  rcases Except.bind_eq_error h with haction | ⟨action, haction, h⟩
  · obtain ⟨before, target, after, hstates, hbefore, htarget, rfl⟩ := resolveAction_eq_error haction
    have hsplit : r.states = (r.transition.states ++ before) ++ target :: after := by
      rw [Rule.states, hstates, List.append_assoc]
    refine .refers hempty hsplit (fun s hs => ?_) htarget
    exact (List.mem_append.1 hs).elim (hpushed s) (hbefore s)
  have hscanned := (resolveAction_eq_ok haction).2
  have hstates : ∀ s ∈ r.states, s ∈ d.stateNames :=
    fun s hs => (List.mem_append.1 hs).elim (hpushed s) (hscanned s)
  rcases Except.bind_eq_error h with hstart | ⟨start, hstart, h⟩
  · obtain ⟨cause, hcause, rfl⟩ := readPattern_eq_error hstart
    exact .notAtStart hempty hstates hcause
  rcases Except.bind_eq_error h with hcontext | ⟨context, -, h⟩
  · obtain ⟨cause, hcause, rfl⟩ := readPattern_eq_error hcontext
    exact .notInContext hempty hstates (readPattern_eq_ok hstart) hcause
  · cases h

/-- What an entry becomes when it is compiled. -/
inductive Becomes (d : Definition) : Entry → Slot → Prop where
  | rule {r : Rule} {c : CompiledRule} (h : r.CompilesTo d.index? c) : Becomes d (.rule r) (.rule c)
  | splice {target : String} {i : Nat} (h : d.index? target = some i) :
      Becomes d (.splice target) (.splice i)

theorem compileEntry_eq_ok {entry : Entry} {slot : Slot}
    (h : d.compileEntry state entry = .ok slot) :
    d.Admits entry ∧ d.Becomes entry slot := by
  cases entry with
  | rule r =>
    obtain ⟨c, hc, rfl⟩ := Except.map_eq_ok h
    obtain ⟨hfits, hcompiles⟩ := compileRule_eq_ok hc
    exact ⟨hfits, .rule hcompiles⟩
  | splice target =>
    obtain ⟨i, hi, rfl⟩ := Except.map_eq_ok h
    have hindex := resolve_eq_ok hi
    exact ⟨mem_stateNames_iff.2 ⟨i, hindex⟩, .splice hindex⟩

theorem compileEntry_eq_error {entry : Entry} {e : GrammarError}
    (h : d.compileEntry state entry = .error e) : d.Rejects state entry e := by
  cases entry with
  | rule r => exact compileRule_eq_error (Except.map_eq_error h)
  | splice target =>
    obtain ⟨htarget, rfl⟩ := resolve_eq_error (Except.map_eq_error h)
    exact .splices htarget

end Definition

end Highlighting
