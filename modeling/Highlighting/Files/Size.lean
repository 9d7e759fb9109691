import Highlighting.Settings.Limits
import Highlighting.Text.Fixed

/-!
# File sizes

A size is shown in the largest unit that fits into it, with two decimals above single bytes.
-/

namespace Highlighting

namespace FileSize

/-- The unit of a number of bytes: its name and how many bytes it has. -/
def unit (n : Nat) : String × Nat :=
  if n < 1024 then ("B", 1)
  else if n < .pow 1024 2 then ("KB", 1024)
  else if n < .pow 1024 3 then ("MB", .pow 1024 2)
  else ("GB", .pow 1024 3)

/-- A number of bytes for people to read, from its first 53 binary digits. -/
def shown (bytes : Nat) : String :=
  let n := roundToBits 53 bytes
  let (name, size) := unit n
  (if size = 1 then toString bytes else fixed 2 n size) ++ " " ++ name

/-- Whether a file of so many bytes counts as large. -/
def isLarge (bytes : Nat) : Bool := Limits.largeFileThreshold < bytes

end FileSize

end Highlighting
