import Mathlib.Data.List.Nodup
import Highlighting.Grammar.Definition

/-!
# Definitions made by edits

A definition is made from an empty one by appending and prepending entries and by renaming.  A
prepend to a state that is not there changes nothing.  Whatever the edits are, the states have
different names (`nodup_stateNames_made`).
-/

namespace Highlighting

/-- A change of a definition while it is made. -/
inductive Edit where
  | append (state : String) (entries : List Entry)
  | prepend (state : String) (entries : List Entry)
  | rename (name : String)
deriving DecidableEq, Inhabited

/-- A text that is added to a list is listed behind the others, unless it is among them. -/
theorem eraseDups_concat (names : List String) (s : String) :
    (names ++ [s]).eraseDups = if s ∈ names then names.eraseDups else names.eraseDups ++ [s] := by
  rw [List.eraseDups_append, List.cons_removeAll]
  by_cases h : s ∈ names
  · rw [if_pos h, if_neg (by simpa using h)]
    exact List.append_nil _
  · rw [if_neg h, if_pos (by simpa using h)]
    rfl

namespace Definition

/-- A definition after an edit; one that fails leaves it as it is. -/
def edit (d : Definition) : Edit → Definition
  | .append state entries => d.append state entries
  | .prepend state entries =>
    match (d.prepend state entries).value with
    | .ok d' => d'
    | .error _ => d
  | .rename name => d.rename name

/-- The definition that edits make of an empty one. -/
def made (name : String) (edits : List Edit) : Definition := edits.foldl edit (.named name)

theorem hasState_iff {d : Definition} {state : String} :
    d.hasState state = true ↔ state ∈ d.stateNames := List.contains_iff_mem

theorem stateNames_modifyState (d : Definition) (state : String)
    (f : List Entry → List Entry) : (d.modifyState state f).stateNames = d.stateNames := by
  rw [modifyState, stateNames, stateNames, List.map_map]
  refine List.map_congr_left fun s _ => ?_
  rw [Function.comp_apply]
  split <;> rfl

/-- The names of the states after an edit: only an append adds one, and only a new one. -/
theorem stateNames_edit (d : Definition) (e : Edit) :
    (d.edit e).stateNames = d.stateNames ∨
      ∃ state entries, e = .append state entries ∧ state ∉ d.stateNames ∧
        (d.edit e).stateNames = d.stateNames ++ [state] := by
  cases e with
  | append state entries =>
    rw [edit, append]
    split
    · exact .inl (d.stateNames_modifyState state _)
    · next hnew =>
      refine .inr ⟨state, entries, rfl, fun hmem => hnew (hasState_iff.2 hmem), ?_⟩
      rw [stateNames, stateNames, List.map_append]
      rfl
  | prepend state entries =>
    refine .inl ?_
    rw [edit, prepend, prepend?]
    dsimp only
    split
    · next d' h =>
      split at h
      · obtain rfl := Except.ok.inj h
        exact d.stateNames_modifyState state _
      · cases h
    · rfl
  | rename name => exact .inl rfl

theorem nodup_stateNames_edit {d : Definition} (h : d.stateNames.Nodup) (e : Edit) :
    (d.edit e).stateNames.Nodup := by
  rcases d.stateNames_edit e with heq | ⟨state, entries, -, hnew, heq⟩
  · rwa [heq]
  · rw [heq, List.nodup_append]
    refine ⟨h, List.nodup_singleton state, fun s hs t ht heq => hnew ?_⟩
    rw [← List.mem_singleton.1 ht, ← heq]
    exact hs

theorem nodup_stateNames_foldl {d : Definition} (h : d.stateNames.Nodup) (edits : List Edit) :
    (edits.foldl edit d).stateNames.Nodup := by
  induction edits generalizing d with
  | nil => exact h
  | cons e edits ih => exact ih (nodup_stateNames_edit h e)

/-- The states of a definition that is made by edits have different names. -/
theorem nodup_stateNames_made (name : String) (edits : List Edit) :
    (made name edits).stateNames.Nodup := by
  have hnone : (named name).stateNames.Nodup := List.nodup_nil
  exact nodup_stateNames_foldl hnone edits

end Definition

end Highlighting
