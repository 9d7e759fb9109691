/-!
# Character boundaries

A byte offset of a text is a boundary if no character of the text reaches over it.  `boundaryFrom?`
goes back from an offset to the closest boundary, a byte at a time.  The closest one is there for
every offset (`boundaryFrom?_eq_posLE`), since a text begins at a boundary.
-/

namespace Highlighting

/-- Goes back from a byte offset until it is a boundary of the text; `none` if the offset would have
to become less than zero. -/
def boundaryFrom? (text : String) (n : Nat) : Option text.Pos :=
  if h : (⟨n⟩ : String.Pos.Raw).IsValid text then some ⟨⟨n⟩, h⟩
  else
    match n with
    | 0 => none
    | n + 1 => boundaryFrom? text n
termination_by structural n

/-- An offset inside a character has the boundary of the offset before it. -/
theorem posLE_succ_of_not_isValid {text : String} {n : Nat}
    (h : ¬ (⟨n + 1⟩ : String.Pos.Raw).IsValid text) : text.posLE ⟨n + 1⟩ = text.posLE ⟨n⟩ := by
  have hle : (text.posLE ⟨n + 1⟩).offset.byteIdx ≤ n + 1 := String.offset_posLE_le
  have hne : (text.posLE ⟨n + 1⟩).offset.byteIdx ≠ n + 1 := fun heq =>
    h (String.offset_posLE_eq_self_iff.1 (String.Pos.Raw.ext heq))
  refine (String.posLE_eq_iff.2 ⟨?_, fun p hp => ?_⟩).symm
  · exact Nat.le_of_lt_succ (Nat.lt_of_le_of_ne hle hne)
  · exact String.le_posLE_iff.2 (Nat.le_succ_of_le hp)

/-- The way back ends at the last boundary that is not beyond the offset. -/
theorem boundaryFrom?_eq_posLE (text : String) (n : Nat) :
    boundaryFrom? text n = some (text.posLE ⟨n⟩) := by
  induction n with
  | zero =>
    have h : (⟨0⟩ : String.Pos.Raw).IsValid text := String.Pos.Raw.isValid_zero
    rw [boundaryFrom?, dif_pos h, String.posLE_eq_pos h]
    rfl
  | succ n ih =>
    rw [boundaryFrom?]
    split
    · next h =>
      rw [String.posLE_eq_pos h]
      rfl
    · next h =>
      rw [posLE_succ_of_not_isValid h]
      exact ih

theorem isSome_boundaryFrom? (text : String) (n : Nat) : (boundaryFrom? text n).isSome = true := by
  rw [boundaryFrom?_eq_posLE, Option.isSome_some]

end Highlighting
