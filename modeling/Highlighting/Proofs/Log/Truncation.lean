import Highlighting.Log.Event

/-!
# What is kept of a long message

A message that is too long is cut at the last boundary between characters that the limit allows.
The way back from the limit to this boundary always ends, and ends soon: a character that the limit
falls into has four bytes at most (`le_byteIdx_posLE_add_three`).  What lies before the boundary is
the longest beginning of the message that there is room for (`isLongestBeginning_posLE`), since
every beginning of a text ends at a boundary.
-/

namespace Highlighting

/-- A text is the longest of the texts of at most `n` bytes that another text begins with. -/
structure IsLongestBeginning (n : Nat) (text kept : String) : Prop where
  isBeginning : ∃ rest, text = kept ++ rest
  fits : kept.utf8ByteSize ≤ n
  longest : ∀ other rest, text = other ++ rest → other.utf8ByteSize ≤ n →
    other.utf8ByteSize ≤ kept.utf8ByteSize

theorem isLongestBeginning_posLE (text : String) (n : Nat) :
    IsLongestBeginning n text (text.sliceTo (text.posLE ⟨n⟩)).copy := by
  have hsplits := (text.posLE ⟨n⟩).splits
  have hsize : (text.posLE ⟨n⟩).offset.byteIdx =
      (text.sliceTo (text.posLE ⟨n⟩)).copy.utf8ByteSize :=
    congrArg String.Pos.Raw.byteIdx hsplits.offset_eq_rawEndPos
  refine ⟨⟨_, hsplits.eq_append⟩, ?_, fun other rest heq hfits => ?_⟩
  · rw [← hsize]
    exact String.offset_posLE_le
  · -- the place where the other beginning ends is a boundary within the limit as well
    have hother := (String.Pos.splits_ofEqAppend heq).offset_eq_rawEndPos
    have hle : String.Pos.ofEqAppend heq ≤ text.posLE ⟨n⟩ := by
      rw [String.le_posLE_iff, hother]
      exact hfits
    rw [String.Pos.le_iff, hother] at hle
    rw [← hsize]
    exact hle

/-- The last boundary that an offset within a text allows is at most three bytes before it. -/
theorem le_byteIdx_posLE_add_three {text : String} {n : Nat} (h : n < text.utf8ByteSize) :
    n ≤ (text.posLE ⟨n⟩).offset.byteIdx + 3 := by
  have hne : text.posLE ⟨n⟩ ≠ text.endPos := by
    intro heq
    have hle : (text.posLE ⟨n⟩).offset.byteIdx ≤ n := String.offset_posLE_le
    rw [heq] at hle
    exact Nat.not_le.2 h hle
  -- the next boundary is beyond the offset, and one character further on
  have hnext : n < ((text.posLE ⟨n⟩).next hne).offset.byteIdx :=
    String.posLE_lt_iff.1 String.Pos.lt_next
  have hfour := ((text.posLE ⟨n⟩).get hne).utf8Size_le_four
  rw [String.Pos.byteIdx_offset_next] at hnext
  omega

-- from the last byte of a character of four bytes the way back is three
example : (boundaryFrom? "é😀" 5).map (·.offset.byteIdx) = some 2 := by decide

/-- A message that the limit allows stays as it is.  Of a longer one the longest beginning that the
limit allows is kept, with dots behind it.  This beginning ends where the way back from the limit
ends, and that is three bytes before the limit at most. -/
theorem truncateMessage_keeps_longest (message : String) :
    if message.utf8ByteSize ≤ Limits.maxMessageLength then truncateMessage message = message
    else
      ∃ cut kept rest,
        boundaryFrom? message Limits.maxMessageLength = some cut ∧
        cut.Splits kept rest ∧
        IsLongestBeginning Limits.maxMessageLength message kept ∧
        Limits.maxMessageLength ≤ kept.utf8ByteSize + 3 ∧
        truncateMessage message = kept ++ "..." := by
  split
  · next h => exact truncateMessage_of_le h
  · next h =>
    have hlt : Limits.maxMessageLength < message.utf8ByteSize := Nat.not_le.1 h
    have hsplits := (message.posLE ⟨Limits.maxMessageLength⟩).splits
    refine ⟨_, _, _, boundaryFrom?_eq_posLE .., hsplits, isLongestBeginning_posLE .., ?_,
      truncateMessage_of_lt hlt⟩
    have hthree := le_byteIdx_posLE_add_three hlt
    rwa [hsplits.offset_eq_rawEndPos] at hthree

end Highlighting
