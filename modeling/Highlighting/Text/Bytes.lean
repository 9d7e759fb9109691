/-!
# Texts measured in bytes

Sizes and places of source text are counted in bytes of its encoding, while texts are lists of
characters.  `takeBytes` and `dropBytes` cut a text at a byte offset; an offset inside a character
cuts before that character.
-/

namespace Highlighting

/-- The number of bytes of a text. -/
def byteSize (cs : List Char) : Nat := cs.foldr (fun c n => c.utf8Size + n) 0

/-- Moves characters from the second text to the first, which is in reverse, as long as they fit
into `n` bytes. -/
def cutBytes (taken : List Char) : Nat → List Char → List Char × List Char
  | _, [] => (taken.reverse, [])
  | n, c :: cs =>
    if c.utf8Size ≤ n then cutBytes (c :: taken) (n - c.utf8Size) cs else (taken.reverse, c :: cs)

/-- The longest beginning of a text with at most `n` bytes. -/
def takeBytes (n : Nat) (cs : List Char) : List Char := (cutBytes [] n cs).1

/-- What follows the longest beginning with at most `n` bytes. -/
def dropBytes (n : Nat) (cs : List Char) : List Char := (cutBytes [] n cs).2

@[simp] theorem byteSize_nil : byteSize [] = 0 := rfl

@[simp] theorem byteSize_cons (c : Char) (cs : List Char) :
    byteSize (c :: cs) = c.utf8Size + byteSize cs := rfl

@[simp] theorem byteSize_append (cs ds : List Char) :
    byteSize (cs ++ ds) = byteSize cs + byteSize ds := by
  induction cs with
  | nil => simp
  | cons c cs ih => simp [ih, Nat.add_assoc]

theorem cutBytes_eq (taken : List Char) (n : Nat) (cs : List Char) :
    cutBytes taken n cs = (taken.reverse ++ takeBytes n cs, dropBytes n cs) := by
  induction cs generalizing taken n with
  | nil => simp [cutBytes, takeBytes, dropBytes]
  | cons c cs ih =>
    by_cases h : c.utf8Size ≤ n
    · simp [cutBytes, takeBytes, dropBytes, h, ih (c :: taken), ih [c]]
    · simp [cutBytes, takeBytes, dropBytes, h]

@[simp] theorem takeBytes_nil (n : Nat) : takeBytes n [] = [] := rfl

@[simp] theorem dropBytes_nil (n : Nat) : dropBytes n [] = [] := rfl

theorem takeBytes_cons (n : Nat) (c : Char) (cs : List Char) :
    takeBytes n (c :: cs) =
      if c.utf8Size ≤ n then c :: takeBytes (n - c.utf8Size) cs else [] := by
  by_cases h : c.utf8Size ≤ n
  · rw [if_pos h, takeBytes, cutBytes, if_pos h, cutBytes_eq]
    rfl
  · simp [takeBytes, cutBytes, h]

theorem dropBytes_cons (n : Nat) (c : Char) (cs : List Char) :
    dropBytes n (c :: cs) = if c.utf8Size ≤ n then dropBytes (n - c.utf8Size) cs else c :: cs := by
  by_cases h : c.utf8Size ≤ n
  · rw [if_pos h, dropBytes, cutBytes, if_pos h, cutBytes_eq]
  · simp [dropBytes, cutBytes, h]

theorem takeBytes_append_dropBytes (n : Nat) (cs : List Char) :
    takeBytes n cs ++ dropBytes n cs = cs := by
  induction cs generalizing n with
  | nil => rfl
  | cons c cs ih =>
    rw [takeBytes_cons, dropBytes_cons]
    by_cases h : c.utf8Size ≤ n
    · simp [h, ih]
    · simp [h]

theorem byteSize_takeBytes_le (n : Nat) (cs : List Char) : byteSize (takeBytes n cs) ≤ n := by
  induction cs generalizing n with
  | nil => simp
  | cons c cs ih =>
    rw [takeBytes_cons]
    by_cases h : c.utf8Size ≤ n
    · have := ih (n - c.utf8Size)
      simp only [h, if_true, byteSize_cons]
      omega
    · simp [h]

/-- A text cut where two parts meet gives the two parts. -/
theorem cutBytes_append (cs ds : List Char) :
    takeBytes (byteSize cs) (cs ++ ds) = cs ∧ dropBytes (byteSize cs) (cs ++ ds) = ds := by
  induction cs with
  | nil =>
    cases ds with
    | nil => simp
    | cons d ds =>
      have : ¬ d.utf8Size ≤ 0 := by have := d.utf8Size_pos; omega
      simp [takeBytes_cons, dropBytes_cons, this]
  | cons c cs ih => simp [takeBytes_cons, dropBytes_cons, ih.1, ih.2]

end Highlighting
