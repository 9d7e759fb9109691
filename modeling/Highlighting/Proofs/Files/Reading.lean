import Highlighting.Files.Source

/-!
# Reading source files

A file is found, checked and decoded before its lines are counted.  What is read from a file with
readable text is up to the checks alone (`SourceReader.value_read`).
-/

namespace Highlighting

/-- A text has no more lines than characters. -/
theorem lineCount_le_length (text : String) : lineCount text ≤ text.toList.length := by
  have hfold : ∀ (cs : List Char) (n : Nat) (isOpen : Bool),
      let r := cs.foldl (fun p c => if c = '\n' then (p.1 + 1, false) else (p.1, true)) (n, isOpen)
      (if r.2 then r.1 + 1 else r.1) ≤ (if isOpen then n + 1 else n) + cs.length := by
    intro cs
    induction cs with
    | nil => simp
    | cons c cs ih =>
      intro n isOpen
      rw [List.foldl_cons, List.length_cons]
      dsimp only
      split
      · have hrest := ih (n + 1) false
        cases isOpen <;> simp at hrest ⊢ <;> omega
      · have hrest := ih n true
        cases isOpen <;> simp at hrest ⊢ <;> omega
  rw [lineCount, String.foldl_eq_foldl_toList]
  have hlines := hfold text.toList 0 false
  simpa using hlines

namespace SourceReader

variable {r : SourceReader} {t : FileTree} {path text : String} {place : Place}
  {contents : ByteArray}

/-- The bytes of a text are read as this text. -/
theorem fromUTF8?_toUTF8 (s : String) : String.fromUTF8? s.toUTF8 = some s :=
  dif_pos s.isValidUTF8

theorem locate_of_find?_file (h : t.find? path = some (place, .file contents)) :
    (locate t path).value = .ok (place, contents) := by
  have hne : path ≠ "" := by
    rintro rfl
    cases h
  rw [locate, if_neg hne, h]
  rfl

/-- The text of a file is read unless the checks refuse the file. -/
theorem value_read (hlocate : (locate t path).value = .ok (place, contents))
    (hdecode : (decode path place contents).value = .ok text)
    (hlines : lineCount text ≤ Limits.maxLines) :
    let ext := (place.getLast?.bind Path.extensionOf?).map lowercase
    (r.read t path).value = (r.check path contents.size ext).value.map fun _ =>
      ⟨text, place, contents.size, ext, lineCount text⟩ := by
  intro ext
  rw [read, Logged.value_bind, Logged.value_bind_of hlocate]
  dsimp only
  rw [Logged.value_bind]
  cases hcheck : (r.check path contents.size ext).value with
  | error e =>
    rw [Logged.value_bind_of hcheck]
    rfl
  | ok u =>
    rw [Logged.value_bind_of hcheck]
    dsimp only
    rw [Logged.value_bind_of hdecode]
    dsimp only
    rw [if_neg (Nat.not_lt.2 hlines)]
    rfl

end SourceReader

end Highlighting
