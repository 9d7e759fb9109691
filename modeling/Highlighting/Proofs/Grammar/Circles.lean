import Mathlib.Data.List.Chain
import Mathlib.Data.List.GetD
import Mathlib.Data.List.Nodup
import Mathlib.Data.List.Perm.Subperm
import Mathlib.Order.RelClasses
import Highlighting.Proofs.Grammar.Extended

/-!
# Circles of splices

States are expanded depth first, and the states in which one is being expanded are a chain of
splices.  So a state that comes up in its own expansion closes a circle, which is what is reported
(`expand_isCircle`), and the chain cannot grow longer than there are states.  If all states are
expanded, no state stands in its own place, because what a state becomes is well-founded
(`acyclic_of_expand`).
-/

namespace Highlighting

/-- A path that comes back to where it begins and meets nothing else twice. -/
def IsCircle {α : Type} (rel : α → α → Prop) (path : List α) : Prop :=
  ∃ a between, path = a :: (between ++ [a]) ∧ (a :: between).Nodup ∧ path.IsChain rel

/-- No one is related to itself by way of others. -/
def Acyclic {α : Type} (rel : α → α → Prop) : Prop := ∀ a, ¬ Relation.TransGen rel a a

section Circle

variable {α β : Type} {rel : α → α → Prop} {path : List α}

theorem transGen_of_isChain {a b : α} {between : List α}
    (h : (a :: (between ++ [b])).IsChain rel) : Relation.TransGen rel a b := by
  induction between generalizing a with
  | nil =>
    rw [List.nil_append, List.isChain_cons_cons] at h
    exact .single h.1
  | cons c between ih =>
    rw [List.cons_append, List.isChain_cons_cons] at h
    exact .head h.1 (ih h.2)

/-- Every member of a chain but the last is related to another one. -/
theorem exists_rel_of_isChain {l : List α} {a b : α} (h : (l ++ [b]).IsChain rel) (ha : a ∈ l) :
    ∃ c, rel a c := by
  induction l with
  | nil => cases ha
  | cons x l ih =>
    rcases List.mem_cons.1 ha with rfl | ha
    · cases l with
      | nil => exact ⟨b, (List.isChain_cons_cons.1 h).1⟩
      | cons y l => exact ⟨y, (List.isChain_cons_cons.1 h).1⟩
    · exact ih h.tail ha

theorem IsCircle.exists_rel (h : IsCircle rel path) {a : α} (ha : a ∈ path) : ∃ b, rel a b := by
  obtain ⟨b, between, rfl, -, hchain⟩ := h
  refine exists_rel_of_isChain (l := b :: between) hchain ?_
  rcases List.mem_append.1 (List.cons_append ▸ ha : a ∈ (b :: between) ++ [b]) with ha | ha
  · exact ha
  · exact List.mem_cons.2 (.inl (List.mem_singleton.1 ha))

theorem IsCircle.not_acyclic (h : IsCircle rel path) : ¬ Acyclic rel := by
  obtain ⟨a, between, rfl, -, hchain⟩ := h
  exact fun hacyclic => hacyclic a (transGen_of_isChain hchain)

/-- A circle stays one under another relation when its members stay different. -/
theorem IsCircle.map {rel' : β → β → Prop} {f : α → β} (h : IsCircle rel path)
    (hf : ∀ a b, rel a b → rel' (f a) (f b))
    (hinj : ∀ a ∈ path, ∀ b ∈ path, f a = f b → a = b) : IsCircle rel' (path.map f) := by
  obtain ⟨a, between, rfl, hnodup, hchain⟩ := h
  refine ⟨f a, between.map f, by simp, ?_, List.isChain_map_of_isChain f hf hchain⟩
  rw [← List.map_cons]
  refine List.Nodup.map_on (fun x hx y hy => hinj x ?_ y ?_) hnodup
  · exact List.mem_append_left [a] hx
  · exact List.mem_append_left [a] hy

theorem Acyclic.of_wellFounded (h : WellFounded (Function.swap rel)) : Acyclic rel := by
  intro a hcycle
  have hswap := Relation.transGen_swap.2 hcycle
  exact h.transGen.asymmetric a a hswap hswap

end Circle

/-- A chain of steps that fails has failed in its first step or behind it. -/
theorem Except.bind_eq_error {ε α β : Type} {x : Except ε α} {f : α → Except ε β} {e : ε}
    (h : (x >>= f) = .error e) : x = .error e ∨ ∃ a, x = .ok a ∧ f a = .error e := by
  cases x with
  | error e' => exact .inl (congrArg Except.error (Except.error.inj h))
  | ok a => exact .inr ⟨a, rfl, h⟩

namespace Definition

variable {slots : List (List Slot)} {entries : List Slot} {rules : List CompiledRule}
  {known : Expanded} {path visiting : List Nat} {n state : Nat}

/-- The entries of a state have another one spliced in. -/
def Calls (slots : List (List Slot)) (state target : Nat) : Prop :=
  Slot.splice target ∈ slots.getD state []

theorem Calls.lt {target : Nat} (h : Calls slots state target) : state < slots.length := by
  by_contra hge
  rw [Calls, List.getD_eq_default _ _ (Nat.le_of_not_lt hge)] at h
  cases h

/-- A list of splices ends in an error where one of them does. -/
theorem spliceAll_eq_error
    {rulesOf : Nat → Expanded → Except (List Nat) (List CompiledRule × Expanded)}
    (h : spliceAll rulesOf entries rules known = .error path) :
    ∃ target known', Slot.splice target ∈ entries ∧ rulesOf target known' = .error path := by
  induction entries generalizing rules known with
  | nil => cases h
  | cons entry rest ih =>
    cases entry with
    | rule r =>
      obtain ⟨target, known', hmem, herror⟩ := ih h
      exact ⟨target, known', List.mem_cons_of_mem _ hmem, herror⟩
    | splice target =>
      rw [spliceAll] at h
      split at h
      · obtain ⟨target, known', hmem, herror⟩ := ih h
        exact ⟨target, known', List.mem_cons_of_mem _ hmem, herror⟩
      · next herror =>
        obtain rfl := Except.error.inj h
        exact ⟨target, known, List.mem_cons_self, herror⟩

/-- The states on a way of splices to a state, the state itself first. -/
abbrev IsWay (slots : List (List Slot)) (way : List Nat) : Prop :=
  way.IsChain fun state before => Calls slots before state

/-- A way on which no state comes up twice is not longer than there are states. -/
theorem IsWay.length_le (h : IsWay slots (state :: visiting)) (hnodup : visiting.Nodup) :
    visiting.length ≤ slots.length := by
  have hchain := List.isChain_reverse.2 h
  rw [List.reverse_cons] at hchain
  have hsub : visiting ⊆ List.range slots.length := by
    intro v hv
    obtain ⟨target, hcalls⟩ := exists_rel_of_isChain hchain (List.mem_reverse.2 hv)
    exact List.mem_range.2 hcalls.lt
  simpa using (List.Nodup.subperm hnodup hsub).length_le

/-- What is in front of the first place of a state in a list. -/
theorem takeWhile_bne_append {before : List Nat} (h : state ∉ before) (after : List Nat) :
    (before ++ state :: after).takeWhile (· != state) = before := by
  rw [List.takeWhile_append_of_pos, List.takeWhile_cons_of_neg (by simp), List.append_nil]
  intro v hv
  rw [bne_iff_ne]
  rintro rfl
  exact h hv

/-- A state that is met again on the way to it closes a circle. -/
theorem IsWay.isCircle (h : IsWay slots (state :: visiting)) (hnodup : visiting.Nodup)
    (hmem : state ∈ visiting) :
    IsCircle (Calls slots) (state :: (visiting.takeWhile (· != state) ++ [state])).reverse := by
  obtain ⟨before, after, rfl, hne⟩ := List.eq_append_cons_of_mem hmem
  rw [takeWhile_bne_append hne]
  refine ⟨state, before.reverse, by simp, ?_, ?_⟩
  · rw [List.nodup_cons, List.mem_reverse, List.nodup_reverse]
    exact ⟨hne, hnodup.of_append_left⟩
  · have hsplit : IsWay slots (state :: (before ++ [state]) ++ after) := by simpa using h
    exact List.isChain_reverse.2 hsplit.left_of_append

/-- An expansion that fails has found a circle. -/
theorem expandWithin_isCircle (hway : IsWay slots (state :: visiting)) (hnodup : visiting.Nodup)
    (hcount : visiting.length + n = slots.length + 1)
    (h : expandWithin slots n visiting state known = .error path) :
    IsCircle (Calls slots) path := by
  induction n generalizing visiting state known with
  | zero =>
    have := hway.length_le hnodup
    omega
  | succ n ih =>
    rcases expandWithin_succ slots n visiting state known with
      ⟨rules, -, heq⟩ | ⟨-, hmem, heq⟩ | ⟨-, hnew, heq⟩ <;> rw [heq] at h
    · cases h
    · obtain rfl := Except.error.inj h
      exact hway.isCircle hnodup hmem
    · obtain ⟨target, known', hcalls, herror⟩ := spliceAll_eq_error (Except.map_eq_error h)
      have hlonger : IsWay slots (target :: state :: visiting) :=
        List.isChain_cons_cons.2 ⟨hcalls, hway⟩
      refine ih hlonger (List.nodup_cons.2 ⟨hnew, hnodup⟩) ?_ herror
      rw [List.length_cons]
      omega

theorem expandAll_isCircle {states : List Nat} (h : expandAll slots states known = .error path) :
    IsCircle (Calls slots) path := by
  induction states generalizing known with
  | nil => cases h
  | cons state states ih =>
    rw [expandAll] at h
    rcases Except.bind_eq_error h with hhead | ⟨found, -, hrest⟩
    · exact expandWithin_isCircle (.singleton state) .nil (by simp) hhead
    · rcases Except.bind_eq_error hrest with hrest | ⟨rest, -, hdone⟩
      · exact ih hrest
      · cases hdone

/-- An expansion fails with a circle of splices. -/
theorem expand_isCircle (h : expand slots = .error path) : IsCircle (Calls slots) path :=
  expandAll_isCircle h

/-- The states that are spliced into entries that become rules are well-founded. -/
theorem Splices.acc (h : Splices slots entries rules) {target : Nat}
    (ht : Slot.splice target ∈ entries) : Acc (Function.swap (Calls slots)) target := by
  induction h generalizing target with
  | nil => cases ht
  | rule _ ih =>
    rcases List.mem_cons.1 ht with hrule | ht
    · cases hrule
    · exact ih ht
  | splice _ _ ihinner ih =>
    rcases List.mem_cons.1 ht with hsplice | ht
    · cases hsplice
      exact .intro _ fun _ hcalls => ihinner hcalls
    · exact ih ht

/-- Where all states are expanded, none is spliced into itself by way of others. -/
theorem acyclic_of_expand {all : List (List CompiledRule)} (h : expand slots = .ok all) :
    Acyclic (Calls slots) := by
  refine .of_wellFounded ⟨fun state => .intro state fun target hcalls => ?_⟩
  exact (splices_getD (expand_splices h) state).acc hcalls

end Definition

end Highlighting
