import Mathlib.Data.List.Forall2
import Highlighting.Grammar.Compiled

/-!
# Splices are replaced by what they stand for

`Splices slots entries rules` says that a list of entries becomes a list of rules when every splice
is replaced by what the entries of its state become.  A definition whose splices have no circle is
expanded in this way for each of its states (`expand_splices`); that states are expanded once and
looked up later changes nothing.
-/

namespace Highlighting

namespace Except

/-- A chain of steps that succeeds has succeeded in its first step. -/
theorem bind_eq_ok {ε α β : Type} {x : Except ε α} {f : α → Except ε β} {b : β}
    (h : (x >>= f) = .ok b) : ∃ a, x = .ok a ∧ f a = .ok b := by
  cases x with
  | error e => cases h
  | ok a => exact ⟨a, rfl, h⟩

/-- A map that succeeds has succeeded before. -/
theorem map_eq_ok {ε α β : Type} {x : Except ε α} {f : α → β} {b : β}
    (h : x.map f = .ok b) : ∃ a, x = .ok a ∧ f a = b := by
  cases x with
  | error e => cases h
  | ok a => exact ⟨a, rfl, Except.ok.inj h⟩

/-- A map that fails has failed before. -/
theorem map_eq_error {ε α β : Type} {x : Except ε α} {f : α → β} {e : ε}
    (h : x.map f = .error e) : x = .error e := by
  cases x with
  | error e' => exact congrArg Except.error (Except.error.inj h)
  | ok a => cases h

theorem eq_ok_of_toOption {ε α : Type} {x : Except ε α} {a : α} (h : x.toOption = some a) :
    x = .ok a := by
  cases x with
  | error e => cases h
  | ok b => exact congrArg Except.ok (Option.some.inj h)

/-- A list whose elements are mapped with success. -/
theorem forall₂_of_mapM {ε α β : Type} {f : α → Except ε β} {l : List α} {l' : List β}
    (h : l.mapM f = .ok l') : List.Forall₂ (fun a b => f a = .ok b) l l' := by
  induction l generalizing l' with
  | nil =>
    obtain rfl := Except.ok.inj (show Except.ok [] = Except.ok l' from h)
    exact .nil
  | cons a l ih =>
    rw [List.mapM_cons] at h
    obtain ⟨b, hb, h⟩ := bind_eq_ok h
    obtain ⟨bs, hbs, h⟩ := bind_eq_ok h
    obtain rfl := Except.ok.inj h
    exact .cons hb (ih hbs)

end Except

namespace Definition

/-- Entries become rules when every splice is replaced. -/
inductive Splices (slots : List (List Slot)) : List Slot → List CompiledRule → Prop where
  | nil : Splices slots [] []
  | rule {r : CompiledRule} {rest : List Slot} {rules : List CompiledRule}
      (h : Splices slots rest rules) : Splices slots (.rule r :: rest) (r :: rules)
  | splice {target : Nat} {rest : List Slot} {inner rules : List CompiledRule}
      (hinner : Splices slots (slots.getD target []) inner) (h : Splices slots rest rules) :
      Splices slots (.splice target :: rest) (inner ++ rules)

variable {slots : List (List Slot)} {entries more : List Slot} {rules : List CompiledRule}
  {known known' : Expanded} {found : List CompiledRule}

/-- What entries become is determined by them. -/
theorem Splices.unique {rules' : List CompiledRule} (h : Splices slots entries rules)
    (h' : Splices slots entries rules') : rules = rules' := by
  induction h generalizing rules' with
  | nil => cases h'; rfl
  | rule _ ih => cases h' with | rule h' => rw [ih h']
  | splice _ _ ihinner ih => cases h' with | splice hinner' h' => rw [ihinner hinner', ih h']

/-- Entries that are rules stay as they are in front of others. -/
theorem splices_rules_append (rs : List CompiledRule)
    (h : Splices slots (rs.map .rule ++ entries) rules) :
    ∃ rest, rules = rs ++ rest ∧ Splices slots entries rest := by
  induction rs generalizing rules with
  | nil => exact ⟨rules, rfl, h⟩
  | cons r rs ih =>
    cases h with
    | rule h =>
      obtain ⟨rest, rfl, hrest⟩ := ih h
      exact ⟨rest, rfl, hrest⟩

/-- The states that are expanded already have the rules that their entries become. -/
def KnownRight (slots : List (List Slot)) (known : Expanded) : Prop :=
  ∀ state rules, known.getD state none = some rules → Splices slots (slots.getD state []) rules

theorem KnownRight.set {state : Nat} (hknown : KnownRight slots known)
    (h : Splices slots (slots.getD state []) rules) :
    KnownRight slots (known.setIfInBounds state (some rules)) := by
  intro i rs hi
  rw [Array.getD_eq_getD_getElem?, Array.getElem?_setIfInBounds] at hi
  split at hi
  · next heq =>
    split at hi
    · obtain rfl : rules = rs := by simpa using hi
      exact heq ▸ h
    · cases hi
  · exact hknown i rs (by rwa [Array.getD_eq_getD_getElem?])

theorem spliceAll_splices
    {rulesOf : Nat → Expanded → Except (List Nat) (List CompiledRule × Expanded)}
    (hrules : ∀ state known rules known', KnownRight slots known →
      rulesOf state known = .ok (rules, known') →
        Splices slots (slots.getD state []) rules ∧ KnownRight slots known')
    (hknown : KnownRight slots known)
    (h : spliceAll rulesOf entries found known = .ok (rules, known')) :
    (∃ new, rules = found.reverse ++ new ∧ Splices slots entries new) ∧
      KnownRight slots known' := by
  induction entries generalizing found known with
  | nil =>
    obtain ⟨rfl, rfl⟩ := Prod.mk.inj (Except.ok.inj h)
    exact ⟨⟨[], (List.append_nil _).symm, .nil⟩, hknown⟩
  | cons entry rest ih =>
    cases entry with
    | rule r =>
      obtain ⟨⟨new, rfl, hnew⟩, hknown'⟩ := ih hknown h
      exact ⟨⟨r :: new, by simp, .rule hnew⟩, hknown'⟩
    | splice target =>
      rw [spliceAll] at h
      split at h
      · next inner known₁ hinner =>
        obtain ⟨hspliced, hknown₁⟩ := hrules _ _ _ _ hknown hinner
        obtain ⟨⟨new, rfl, hnew⟩, hknown'⟩ := ih hknown₁ h
        exact ⟨⟨inner ++ new, by simp, .splice hspliced hnew⟩, hknown'⟩
      · cases h

/-- A state is looked up if it is expanded already; it closes a circle if it is being expanded; and
otherwise its entries are spliced one level further down, and it is expanded from then on. -/
theorem expandWithin_succ (slots : List (List Slot)) (n : Nat) (visiting : List Nat) (state : Nat)
    (known : Expanded) :
    (∃ rules, known.getD state none = some rules ∧
      expandWithin slots (n + 1) visiting state known = .ok (rules, known)) ∨
    (known.getD state none = none ∧ state ∈ visiting ∧
      expandWithin slots (n + 1) visiting state known =
        .error (state :: (visiting.takeWhile (· != state) ++ [state])).reverse) ∨
    (known.getD state none = none ∧ state ∉ visiting ∧
      expandWithin slots (n + 1) visiting state known =
        (spliceAll (expandWithin slots n (state :: visiting)) (slots.getD state []) [] known).map
          fun x => (x.1, x.2.setIfInBounds state (some x.1))) := by
  rw [expandWithin]
  cases hknown : known.getD state none with
  | some rules => exact .inl ⟨rules, rfl, rfl⟩
  | none =>
    by_cases hmem : state ∈ visiting
    · exact .inr (.inl ⟨rfl, hmem, if_pos (List.contains_iff_mem.2 hmem)⟩)
    · refine .inr (.inr ⟨rfl, hmem, ?_⟩)
      dsimp only
      rw [if_neg fun hin => hmem (List.contains_iff_mem.1 hin)]
      cases spliceAll (expandWithin slots n (state :: visiting)) (slots.getD state []) [] known <;>
        rfl

theorem expandWithin_splices {n : Nat} {visiting : List Nat} {state : Nat}
    (hknown : KnownRight slots known)
    (h : expandWithin slots n visiting state known = .ok (rules, known')) :
    Splices slots (slots.getD state []) rules ∧ KnownRight slots known' := by
  induction n generalizing visiting state known rules known' with
  | zero => cases h
  | succ n ih =>
    rcases expandWithin_succ slots n visiting state known with
      ⟨rules₁, hsome, heq⟩ | ⟨-, -, heq⟩ | ⟨-, -, heq⟩ <;> rw [heq] at h
    · obtain ⟨rfl, rfl⟩ := Prod.mk.inj (Except.ok.inj h)
      exact ⟨hknown _ _ hsome, hknown⟩
    · cases h
    · obtain ⟨⟨rules₁, known₁⟩, hall, hx⟩ := Except.map_eq_ok h
      obtain ⟨rfl, rfl⟩ := Prod.mk.inj hx
      obtain ⟨⟨new, rfl, hnew⟩, hknown₁⟩ :=
        spliceAll_splices (fun _ _ _ _ hk h => ih hk h) hknown hall
      exact ⟨hnew, hknown₁.set hnew⟩

theorem expandAll_splices {states : List Nat} {all : List (List CompiledRule)}
    (hknown : KnownRight slots known) (h : expandAll slots states known = .ok all) :
    List.Forall₂ (fun state rules => Splices slots (slots.getD state []) rules) states all := by
  induction states generalizing known all with
  | nil =>
    obtain rfl := Except.ok.inj (show Except.ok [] = Except.ok all from h)
    exact .nil
  | cons state states ih =>
    rw [expandAll] at h
    obtain ⟨⟨rules, known'⟩, hrules, h⟩ := Except.bind_eq_ok h
    obtain ⟨rest, hrest, h⟩ := Except.bind_eq_ok h
    obtain rfl := Except.ok.inj h
    obtain ⟨hspliced, hknown'⟩ := expandWithin_splices hknown hrules
    exact .cons hspliced (ih hknown' hrest)

/-- Every state of a definition that is expanded has the rules that its entries become. -/
theorem expand_splices {all : List (List CompiledRule)} (h : expand slots = .ok all) :
    List.Forall₂ (Splices slots) slots all := by
  have hnone : KnownRight slots (Array.replicate slots.length none) := by
    intro state rules hsome
    simp [Array.getD_eq_getD_getElem?, Array.getElem?_replicate] at hsome
    split at hsome <;> cases hsome
  have hall := expandAll_splices hnone h
  have hslots : (List.range slots.length).map (fun state => slots.getD state []) = slots := by
    refine List.ext_getElem (by simp) fun i hi hi' => ?_
    simp [List.getD_eq_getElem?_getD, List.getElem?_eq_getElem hi']
  rwa [← List.forall₂_map_left_iff, hslots] at hall

end Definition

end Highlighting
