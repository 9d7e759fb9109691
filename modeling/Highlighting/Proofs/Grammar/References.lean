import Highlighting.Proofs.Grammar.Building

/-!
# References of compiled grammars

The rules of a compiled grammar refer to states of the grammar only, because every reference is an
index that the definition has given for a declared name, whatever splices the rule came through
(`Definition.isClosed_of_compile`).
-/

namespace Highlighting

/-- The states that a rule refers to: the pushed one, then those of its groups. -/
def CompiledRule.states (r : CompiledRule) : List Nat := r.transition.states ++ r.action.states

/-- An index is that of a state. -/
def Grammar.HasIndex (g : Grammar) (state : Nat) : Prop := state < g.states.length

/-- A grammar has the states that are referred to in it. -/
structure Grammar.IsClosed (g : Grammar) : Prop where
  root : g.HasIndex g.root
  rules : ∀ state, ∀ r ∈ g.rules state, ∀ target ∈ r.states, g.HasIndex target

section Lift

variable {σ τ : Type} {rel : σ → τ → Prop} {j : τ}

theorem Transition.Lift.exists_rel {t : Transition σ} {t' : Transition τ} (h : t.Lift rel t')
    (hj : j ∈ t'.states) : ∃ i, rel i j := by
  cases h with
  | stay | pop => cases hj
  | push h =>
    obtain rfl := List.mem_singleton.1 hj
    exact ⟨_, h⟩

theorem GroupAction.Lift.exists_rel {a : GroupAction σ} {a' : GroupAction τ} (h : a.Lift rel a')
    (hj : j ∈ a'.states) : ∃ i, rel i j := by
  cases h with
  | token | keywords => cases hj
  | scan h =>
    obtain rfl := List.mem_singleton.1 hj
    exact ⟨_, h⟩

theorem Action.Lift.exists_rel {a : Action σ} {a' : Action τ} (h : a.Lift rel a')
    (hj : j ∈ a'.states) : ∃ i, rel i j := by
  cases h with
  | token | keywords => cases hj
  | groups h =>
    obtain ⟨b, hb, hj⟩ := List.mem_flatMap.1 hj
    obtain ⟨a, -, hlift⟩ := exists_of_forall₂ h.flip hb
    exact GroupAction.Lift.exists_rel hlift hj

theorem Rule.CompilesTo.exists_index {index : String → Option Nat} {r : Rule} {c : CompiledRule}
    (h : r.CompilesTo index c) {i : Nat} (hi : i ∈ c.states) : ∃ state, index state = some i := by
  rcases List.mem_append.1 hi with hi | hi
  · exact h.transition.exists_rel hi
  · exact h.action.exists_rel hi

end Lift

namespace Definition

variable {d : Definition} {g : Grammar} {slots : List (List Slot)}

/-- The rules that entries become stand in the entries or in those of a state. -/
theorem Splices.mem_slots {entries : List Slot} {rules : List CompiledRule}
    (h : Splices slots entries rules) {r : CompiledRule} (hr : r ∈ rules) :
    Slot.rule r ∈ entries ∨ ∃ i, Slot.rule r ∈ slots.getD i [] := by
  induction h with
  | nil => cases hr
  | rule _ ih =>
    rcases List.mem_cons.1 hr with rfl | hr
    · exact .inl List.mem_cons_self
    · exact (ih hr).imp_left (List.mem_cons_of_mem _)
  | splice _ _ ihinner ih =>
    rcases List.mem_append.1 hr with hr | hr
    · exact .inr ((ihinner hr).elim (fun h => ⟨_, h⟩) id)
    · exact (ih hr).imp_left (List.mem_cons_of_mem _)

theorem lt_of_index? {state : String} {i : Nat} (h : d.index? state = some i) :
    i < d.stateNames.length := by
  rw [index?_eq, List.findIdx?_eq_some_iff_getElem] at h
  exact h.1

/-- The rules of a compiled grammar are declared rules, compiled. -/
theorem exists_compilesTo (h : d.compile = .ok g) {state : Nat} {c : CompiledRule}
    (hc : c ∈ g.rules state) :
    ∃ s ∈ d.states, ∃ r : Rule, Entry.rule r ∈ s.2 ∧ r.CompilesTo d.index? c := by
  obtain ⟨slots, hslots, -, hrules⟩ := compile_states h
  obtain ⟨-, hbecomes⟩ := compileEntries_eq_ok hslots
  obtain ⟨i, hslot⟩ : ∃ i, Slot.rule c ∈ slots.getD i [] :=
    ((hrules state).mem_slots hc).elim (fun h => ⟨state, h⟩) id
  have hlt : i < slots.length := by
    by_contra hge
    rw [List.getD_eq_default _ _ (Nat.le_of_not_lt hge)] at hslot
    cases hslot
  obtain ⟨s, hstate⟩ : ∃ s, d.states[i]? = some s :=
    ⟨_, List.getElem?_eq_getElem (hbecomes.length_eq ▸ hlt)⟩
  obtain ⟨entry, hmem, hentry⟩ := exists_of_forall₂ (becomes_getD hbecomes hstate).flip hslot
  cases hentry with
  | rule hcompiles => exact ⟨s, List.mem_of_getElem? hstate, _, hmem, hcompiles⟩

/-- A grammar that a definition is compiled into has the states that are referred to in it. -/
theorem isClosed_of_compile (h : d.compile = .ok g) : g.IsClosed := by
  obtain ⟨-, -, hnames, -⟩ := compile_states h
  have hlength : d.stateNames.length = g.states.length := by
    rw [← hnames, Grammar.stateNames, List.length_map]
  refine ⟨?_, fun state c hc target htarget => ?_⟩
  · have hroot : rootState ∈ d.stateNames := by
      rw [compile] at h
      split at h
      · next hroot => exact hasState_iff.1 hroot
      · cases h
    obtain ⟨i, hi⟩ := mem_stateNames_iff.1 hroot
    rw [Grammar.HasIndex, Grammar.root, stateIndex?_eq hnames, hi, ← hlength]
    exact lt_of_index? hi
  · obtain ⟨-, -, r, -, hr⟩ := exists_compilesTo h hc
    obtain ⟨name, hname⟩ := hr.exists_index htarget
    rw [Grammar.HasIndex, ← hlength]
    exact lt_of_index? hname

end Definition

end Highlighting
