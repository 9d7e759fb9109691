import Highlighting.Proofs.Grammar.Edits
import Highlighting.Proofs.Grammar.Entries

/-!
# What a definition is built into

A definition can be built if it is `Sound`: there is a root state, every entry can stand in its
state, and no state is included in itself.  The grammar then has the states of the definition, each
with the rules that its entries become when every splice is replaced by what its state becomes
(`BuildsTo`); neither the order in which states are expanded nor that each is expanded once can be
seen in it.  Otherwise the error is about the missing root state, or else the first entry that
cannot stand in its state, or else a circle (`FailsWith`).
-/

namespace Highlighting

namespace Definition

variable {d : Definition} {g : Grammar} {state target : String} {slots : List (List Slot)}

/-- The entries of all states with the names of these, in declaration order. -/
def allEntries (d : Definition) : List (String × Entry) :=
  d.states.flatMap fun s => s.2.map fun entry => (s.1, entry)

/-- One of the entries of a state is a splice of another. -/
def Includes (d : Definition) (state target : String) : Prop :=
  (state, Entry.splice target) ∈ d.allEntries

/-- A definition that can be built. -/
structure Sound (d : Definition) : Prop where
  root : rootState ∈ d.stateNames
  admits : ∀ x ∈ d.allEntries, d.Admits x.2
  acyclic : Acyclic d.Includes

/-- Why a definition cannot be built. -/
inductive FailsWith (d : Definition) : GrammarError → Prop where
  | missingRoot (h : rootState ∉ d.stateNames) : FailsWith d (.missingRootState d.name)
  | entry {before after : List (String × Entry)} {state : String} {entry : Entry} {e : GrammarError}
      (hroot : rootState ∈ d.stateNames) (hsplit : d.allEntries = before ++ (state, entry) :: after)
      (hbefore : ∀ x ∈ before, d.Admits x.2) (h : d.Rejects state entry e) : FailsWith d e
  | circle {path : List String} (hroot : rootState ∈ d.stateNames)
      (hadmits : ∀ x ∈ d.allEntries, d.Admits x.2) (h : IsCircle d.Includes path) :
      FailsWith d (.includeCycle path)

/-- Entries become rules: a rule stands for itself, a splice for what the entries of its state
become. -/
inductive Expands (d : Definition) : List Entry → List Rule → Prop where
  | nil : Expands d [] []
  | rule {r : Rule} {rest : List Entry} {rules : List Rule} (h : Expands d rest rules) :
      Expands d (.rule r :: rest) (r :: rules)
  | splice {target : String} {entries rest : List Entry} {inner rules : List Rule}
      (htarget : d.entries? target = some entries) (hinner : Expands d entries inner)
      (h : Expands d rest rules) : Expands d (.splice target :: rest) (inner ++ rules)

/-- A grammar has the states of a definition in their order, under different names, and each has
the rules that its entries become, compiled. -/
structure BuildsTo (d : Definition) (g : Grammar) : Prop where
  name : g.name = d.name
  names : g.stateNames = d.stateNames
  nodup : g.stateNames.Nodup
  rules : ∀ state entries, (state, entries) ∈ d.states →
    ∃ i rules, g.stateIndex? state = some i ∧ d.Expands entries rules ∧
      List.Forall₂ (Rule.CompilesTo g.stateIndex?) rules (g.rules i)

theorem FailsWith.not_sound {e : GrammarError} (h : d.FailsWith e) : ¬ d.Sound := by
  intro hsound
  cases h with
  | missingRoot h => exact h hsound.root
  | @entry before after state entry _ hroot hsplit hbefore h =>
    have hmem : (state, entry) ∈ d.allEntries := by simp [hsplit]
    exact h.not_admits (hsound.admits _ hmem)
  | circle hroot hadmits h => exact h.not_acyclic hsound.acyclic

/-- What entries become is determined by them. -/
theorem Expands.unique {entries : List Entry} {rules rules' : List Rule}
    (h : d.Expands entries rules) (h' : d.Expands entries rules') : rules = rules' := by
  induction h generalizing rules' with
  | nil => cases h'; rfl
  | rule _ ih => cases h' with | rule h' => rw [ih h']
  | splice htarget _ _ ihinner ih =>
    cases h' with
    | splice htarget' hinner' h' =>
      obtain rfl := Option.some.inj (htarget.symm.trans htarget')
      rw [ihinner hinner', ih h']

/-! ### States and their indices -/

theorem index?_of_getElem? (hnodup : d.stateNames.Nodup) {i : Nat} {entries : List Entry}
    (h : d.states[i]? = some (state, entries)) : d.index? state = some i := by
  have hname : d.stateNames[i]? = some state := by rw [stateNames, List.getElem?_map, h]; rfl
  obtain ⟨hlt, hname⟩ := List.getElem?_eq_some_iff.1 hname
  rw [index?_eq, List.findIdx?_eq_some_iff_getElem]
  refine ⟨hlt, by simp [hname], fun j hj => ?_⟩
  rw [← hname]
  simp only [beq_iff_eq]
  exact fun heq => absurd (hnodup.getElem_inj_iff.1 heq) (Nat.ne_of_lt hj)

theorem entries?_of_index? {i : Nat} (h : d.index? target = some i) :
    ∃ entries, d.states[i]? = some (target, entries) ∧ d.entries? target = some entries := by
  rw [index?, List.findIdx?_eq_some_iff_getElem] at h
  obtain ⟨hlt, hname, hbefore⟩ := h
  have htarget : d.states[i] = (target, d.states[i].2) := Prod.ext (beq_iff_eq.1 hname) rfl
  refine ⟨d.states[i].2, List.getElem?_eq_some_iff.2 ⟨hlt, htarget⟩, ?_⟩
  have hfind : d.states.find? (fun s => s.1 == target) = some d.states[i] := by
    rw [List.find?_eq_some_iff_getElem]
    exact ⟨hname, i, hlt, rfl, fun j hj => by simpa using hbefore j hj⟩
  rw [entries?, hfind]
  rfl

theorem stateName_of_getElem? {i : Nat} {entries : List Entry}
    (h : d.states[i]? = some (state, entries)) : d.stateName i = state := by
  rw [stateName, stateNames, List.getD_eq_getElem?_getD, List.getElem?_map, h]
  rfl

/-- A compiled definition has admitted all its entries, and those of each state are compiled one by
one. -/
theorem compileEntries_eq_ok (h : d.compileEntries = .ok slots) :
    (∀ x ∈ d.allEntries, d.Admits x.2) ∧
      List.Forall₂ (fun s slots => List.Forall₂ d.Becomes s.2 slots) d.states slots := by
  have hall := Except.forall₂_of_mapM h
  have heach : List.Forall₂ (fun s slots => List.Forall₂ (fun entry slot =>
      d.Admits entry ∧ d.Becomes entry slot) s.2 slots) d.states slots := by
    refine hall.imp fun s slots hs => ?_
    have hentries := Except.forall₂_of_mapM hs
    exact hentries.imp fun _ _ h => compileEntry_eq_ok h
  refine ⟨fun x hx => ?_, heach.imp fun _ _ hs => hs.imp fun _ _ h => h.2⟩
  obtain ⟨s, hs, hx⟩ := List.mem_flatMap.1 hx
  obtain ⟨entry, hentry, rfl⟩ := List.mem_map.1 hx
  obtain ⟨_, -, hs⟩ := exists_of_forall₂ heach hs
  obtain ⟨_, -, hadmits, -⟩ := exists_of_forall₂ hs hentry
  exact hadmits

/-- Entries are compiled in declaration order, up to the first that cannot stand in its state. -/
theorem compileEntries_eq_error {e : GrammarError} (h : d.compileEntries = .error e) :
    ∃ before state entry after, d.allEntries = before ++ (state, entry) :: after ∧
      (∀ x ∈ before, d.Admits x.2) ∧ d.Rejects state entry e := by
  obtain ⟨states, ⟨state, entries⟩, more, hstates, hbefore, h⟩ := Except.exists_of_mapM_eq_error h
  obtain ⟨done, entry, rest, rfl, hdone, h⟩ := Except.exists_of_mapM_eq_error h
  let named (s : String × List Entry) := s.2.map fun entry => (s.1, entry)
  refine ⟨states.flatMap named ++ done.map (state, ·), state, entry,
    rest.map (state, ·) ++ more.flatMap named, ?_, fun x hx => ?_, compileEntry_eq_error h⟩
  · rw [allEntries, hstates]
    simp [named]
  · rcases List.mem_append.1 hx with hx | hx
    · obtain ⟨s, hs, hx⟩ := List.mem_flatMap.1 hx
      obtain ⟨entry, hentry, rfl⟩ := List.mem_map.1 hx
      obtain ⟨slots, hslots⟩ := hbefore s hs
      obtain ⟨slot, -, hslot⟩ := exists_of_forall₂ (Except.forall₂_of_mapM hslots) hentry
      exact (compileEntry_eq_ok hslot).1
    · obtain ⟨entry, hentry, rfl⟩ := List.mem_map.1 hx
      obtain ⟨slot, hslot⟩ := hdone entry hentry
      exact (compileEntry_eq_ok hslot).1

section Compiled

variable (hslots : List.Forall₂ (fun s slots => List.Forall₂ d.Becomes s.2 slots) d.states slots)
include hslots

/-- The compiled entries of a state. -/
theorem becomes_getD {i : Nat} {entries : List Entry} (h : d.states[i]? = some (state, entries)) :
    List.Forall₂ d.Becomes entries (slots.getD i []) := by
  obtain ⟨compiled, hcompiled, hentries⟩ := getElem?_of_forall₂ hslots h
  rwa [List.getD_eq_getElem?_getD, hcompiled]

/-- What compiled entries become is what the entries become, compiled. -/
theorem expands_of_splices {compiled : List Slot} {rules : List CompiledRule}
    (h : Splices slots compiled rules) {entries : List Entry}
    (hentries : List.Forall₂ d.Becomes entries compiled) :
    ∃ declared, d.Expands entries declared ∧
      List.Forall₂ (Rule.CompilesTo d.index?) declared rules := by
  induction h generalizing entries with
  | nil =>
    cases hentries
    exact ⟨[], .nil, .nil⟩
  | rule _ ih =>
    obtain _ | ⟨hrule, hentries⟩ := hentries
    cases hrule with
    | rule hcompiles =>
      obtain ⟨declared, hexpands, hdeclared⟩ := ih hentries
      exact ⟨_, .rule hexpands, .cons hcompiles hdeclared⟩
  | splice _ _ ihinner ih =>
    obtain _ | ⟨hsplice, hentries⟩ := hentries
    cases hsplice with
    | splice hindex =>
      obtain ⟨inner, hstate, htarget⟩ := entries?_of_index? hindex
      obtain ⟨declared, hexpands, hdeclared⟩ := ihinner (becomes_getD hslots hstate)
      obtain ⟨more, hmore, hcompiled⟩ := ih hentries
      exact ⟨declared ++ more, .splice htarget hexpands hmore,
        List.rel_append hdeclared hcompiled⟩

/-- Where a state includes another, its compiled entries have the index of the other. -/
theorem calls_of_includes (hnodup : d.stateNames.Nodup) (h : d.Includes state target) :
    Calls slots ((d.index? state).getD 0) ((d.index? target).getD 0) := by
  obtain ⟨s, hs, h⟩ := List.mem_flatMap.1 h
  obtain ⟨entry, hentry, heq⟩ := List.mem_map.1 h
  obtain ⟨rfl, rfl⟩ := Prod.mk.inj heq
  obtain ⟨i, hi⟩ := List.mem_iff_getElem?.1 hs
  obtain ⟨slot, hslot, hbecomes⟩ := exists_of_forall₂ (becomes_getD hslots hi) hentry
  cases hbecomes with
  | splice hindex =>
    rw [index?_of_getElem? hnodup hi, hindex]
    exact hslot

theorem includes_of_calls {i j : Nat} (h : Calls slots i j) :
    d.Includes (d.stateName i) (d.stateName j) := by
  have hlt := h.lt
  rw [← hslots.length_eq] at hlt
  have hstate : d.states[i]? = some (d.states[i].1, d.states[i].2) := List.getElem?_eq_getElem hlt
  have hflip : List.Forall₂ (flip d.Becomes) (slots.getD i []) d.states[i].2 :=
    (becomes_getD hslots hstate).flip
  obtain ⟨entry, hentry, hbecomes⟩ := exists_of_forall₂ hflip h
  cases hbecomes with
  | splice hindex =>
    obtain ⟨inner, htarget, -⟩ := entries?_of_index? hindex
    rw [stateName_of_getElem? hstate, stateName_of_getElem? htarget]
    exact List.mem_flatMap.2 ⟨_, List.mem_of_getElem? hstate, List.mem_map.2 ⟨_, hentry, rfl⟩⟩

/-- A circle of indices is one of states. -/
theorem isCircle_map (hnodup : d.stateNames.Nodup) {path : List Nat}
    (h : IsCircle (Calls slots) path) : IsCircle d.Includes (path.map d.stateName) := by
  refine h.map (fun _ _ => includes_of_calls hslots) fun i hi j hj heq => ?_
  have hlt {i : Nat} (hi : i ∈ path) : i < d.stateNames.length := by
    obtain ⟨target, hcalls⟩ := h.exists_rel hi
    rw [stateNames, List.length_map, hslots.length_eq]
    exact hcalls.lt
  rw [stateName, stateName, List.getD_eq_getElem _ _ (hlt hi), List.getD_eq_getElem _ _ (hlt hj)]
    at heq
  exact hnodup.getElem_inj_iff.1 heq

theorem acyclic_includes (hnodup : d.stateNames.Nodup) (h : Acyclic (Calls slots)) :
    Acyclic d.Includes := by
  intro state hcycle
  let index (state : String) := (d.index? state).getD 0
  exact h (index state) (hcycle.lift index fun _ _ => calls_of_includes hslots hnodup)

end Compiled

/-! ### Building -/

theorem build_eq_compile (d : Definition) : d.build.value = d.compile := by
  rw [build]
  split <;> rename_i h <;> rw [h]

theorem stateIndex?_eq (hnames : g.stateNames = d.stateNames) : g.stateIndex? = d.index? := by
  funext name
  rw [index?_eq, ← hnames, Grammar.stateIndex?, Grammar.stateNames, List.findIdx?_map]
  rfl

theorem buildsTo_of_compile (hnodup : d.stateNames.Nodup) (h : d.compile = .ok g) :
    d.BuildsTo g := by
  obtain ⟨slots, hslots, hnames, hrules⟩ := compile_states h
  obtain ⟨-, hbecomes⟩ := compileEntries_eq_ok hslots
  have hindex := stateIndex?_eq hnames
  have hname : g.name = d.name := by
    obtain ⟨-, -, -, -, rfl⟩ := compile_eq_ok h
    rfl
  refine ⟨hname, hnames, hnames ▸ hnodup, fun state entries hs => ?_⟩
  obtain ⟨i, hi⟩ := List.mem_iff_getElem?.1 hs
  obtain ⟨declared, hexpands, hdeclared⟩ :=
    expands_of_splices hbecomes (hrules i) (becomes_getD hbecomes hi)
  rw [hindex]
  exact ⟨i, declared, index?_of_getElem? hnodup hi, hexpands, hdeclared⟩

theorem sound_of_compile (hnodup : d.stateNames.Nodup) (h : d.compile = .ok g) : d.Sound := by
  rw [compile] at h
  split at h
  · next hroot =>
    obtain ⟨slots, hslots, h⟩ := Except.bind_eq_ok h
    obtain ⟨rules, hrules, -⟩ := Except.bind_eq_ok h
    obtain ⟨hadmits, hbecomes⟩ := compileEntries_eq_ok hslots
    rw [flatten] at hrules
    split at hrules
    · next hexpand =>
      have hacyclic := acyclic_includes hbecomes hnodup (acyclic_of_expand hexpand)
      exact ⟨hasState_iff.1 hroot, hadmits, hacyclic⟩
    · cases hrules
  · cases h

theorem failsWith_of_compile (hnodup : d.stateNames.Nodup) {e : GrammarError}
    (h : d.compile = .error e) : d.FailsWith e := by
  rw [compile] at h
  split at h
  · next hroot =>
    have hroot := hasState_iff.1 hroot
    rcases Except.bind_eq_error h with hslots | ⟨slots, hslots, h⟩
    · obtain ⟨before, state, entry, after, hsplit, hbefore, hrejects⟩ :=
        compileEntries_eq_error hslots
      exact .entry hroot hsplit hbefore hrejects
    · obtain ⟨hadmits, hbecomes⟩ := compileEntries_eq_ok hslots
      rcases Except.bind_eq_error h with hrules | ⟨rules, -, h⟩
      · rw [flatten] at hrules
        split at hrules
        · cases hrules
        · next path hexpand =>
          obtain rfl := Except.error.inj hrules
          exact .circle hroot hadmits (isCircle_map hbecomes hnodup (expand_isCircle hexpand))
      · cases h
  · next hroot =>
    obtain rfl := Except.error.inj h
    exact .missingRoot fun hmem => hroot (hasState_iff.2 hmem)

/-- Whatever the edits are that make a definition, it can be built exactly if it is sound; then the
grammar has the rules that the entries become, and otherwise the error is the first one in the order
of a missing root state, an entry that cannot stand in its state, and a circle. -/
theorem made_build (name : String) (edits : List Edit) :
    ((∃ g, (made name edits).build.value = .ok g) ↔ (made name edits).Sound) ∧
      match (made name edits).build.value with
      | .ok g => (made name edits).BuildsTo g
      | .error e => (made name edits).FailsWith e := by
  have hnodup := nodup_stateNames_made name edits
  rw [build_eq_compile]
  cases h : (made name edits).compile with
  | ok g =>
    exact ⟨⟨fun _ => sound_of_compile hnodup h, fun _ => ⟨g, rfl⟩⟩, buildsTo_of_compile hnodup h⟩
  | error e =>
    have hfails := failsWith_of_compile hnodup h
    refine ⟨⟨?_, fun hsound => absurd hsound hfails.not_sound⟩, hfails⟩
    rintro ⟨g, hg⟩
    cases hg

end Definition

end Highlighting
