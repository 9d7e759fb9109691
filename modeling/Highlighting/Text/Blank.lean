import Highlighting.Text.Intervals

/-!
# Blank characters

`isBlank` is the White_Space property of Unicode, which decides what `\s` matches, what is
cut from the two ends of a name, and which tokens count as blank.
-/

namespace Highlighting

/-- The characters with the White_Space property. -/
def blankIntervals : Intervals :=
  [(0x9, 0xd), (0x20, 0x20), (0x85, 0x85), (0xa0, 0xa0), (0x1680, 0x1680), (0x2000, 0x200a),
   (0x2028, 0x2029), (0x202f, 0x202f), (0x205f, 0x205f), (0x3000, 0x3000)]

/-- Whether a character is white space. -/
def isBlank (c : Char) : Bool := blankIntervals.has c

/-- The text without the blanks at its two ends. -/
def trimChars (cs : List Char) : List Char :=
  ((cs.dropWhile isBlank).reverse.dropWhile isBlank).reverse

/-- The string without the blanks at its two ends. -/
def trim (s : String) : String := String.ofList (trimChars s.toList)

/-- Whether a string holds blanks only. -/
def allBlank (s : String) : Bool := s.toList.all isBlank

theorem isBlank_space : isBlank ' ' = true := by decide

theorem isBlank_newline : isBlank '\n' = true := by decide

end Highlighting
