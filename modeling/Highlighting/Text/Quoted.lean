import Highlighting.Text.Hidden

/-!
# Quoted texts

`quoted` writes a text between double quotes so that nothing in it is hidden: the quote and the
backslash are escaped, tab, line feed, carriage return and NUL have short escapes, and characters
that do not show or attach to the one before are written by code point.
-/

namespace Highlighting

/-- The hexadecimal digits of a number, in lower case. -/
def hexDigits (n : Nat) : List Char := Nat.toDigits 16 n

/-- A character as it stands inside quotes. -/
def quotedChar (c : Char) : List Char :=
  match c with
  | '"' => ['\\', '"']
  | '\\' => ['\\', '\\']
  | '\n' => ['\\', 'n']
  | '\r' => ['\\', 'r']
  | '\t' => ['\\', 't']
  | _ =>
    if c.toNat = 0 then ['\\', '0']
    else if isPrintable c && !isExtender c then [c]
    else ['\\', 'u', '\x7b'] ++ hexDigits c.toNat ++ ['\x7d']

/-- A text in double quotes. -/
def quoted (s : String) : String :=
  String.ofList ('"' :: s.toList.flatMap quotedChar ++ ['"'])

theorem quotedChar_quote : quotedChar '"' = ['\\', '"'] := rfl

end Highlighting
