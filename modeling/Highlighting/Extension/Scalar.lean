/-!
# Booleans, numbers, dates and times

The values of an extension file that are neither texts nor made of other values.  An extension
looks at none of them, so that reading one only tells where it ends: `Toml.scalar?` gives the text
after a well-formed value and refuses all others.
-/

namespace Highlighting

namespace Toml

/-- The text after a word that stands at its start. -/
def after? (word : String) (cs : List Char) : Option (List Char) :=
  if word.toList.isPrefixOf cs then some (cs.drop word.length) else none

/-! ### Digits -/

/-- The value of a digit, letters being digits above nine. -/
def digitValue (c : Char) : Nat :=
  if c.isDigit then c.toNat - '0'.toNat
  else if 'a' ≤ c && c ≤ 'f' then c.toNat - 'a'.toNat + 10
  else if 'A' ≤ c && c ≤ 'F' then c.toNat - 'A'.toNat + 10
  else 16

/-- Whether a character is a digit in a base up to sixteen. -/
def isDigitOf (base : Nat) (c : Char) : Bool := digitValue c < base

/-- Further digits after those found so far, which come latest first; single underscores may stand
between them. -/
def moreDigits? (base : Nat) : List Char → List Char → Option (List Char × List Char)
  | found, '_' :: c :: cs => if isDigitOf base c then moreDigits? base (c :: found) cs else none
  | _, ['_'] => none
  | found, c :: cs =>
    if isDigitOf base c then moreDigits? base (c :: found) cs else some (found.reverse, c :: cs)
  | found, [] => some (found.reverse, [])

/-- One or more digits, and the text after them. -/
def digits? (base : Nat) : List Char → Option (List Char × List Char)
  | [] => none
  | c :: cs => if isDigitOf base c then moreDigits? base [c] cs else none

/-- The number that digits stand for. -/
def ofDigits (base : Nat) (cs : List Char) : Nat :=
  cs.foldl (fun n c => base * n + digitValue c) 0

/-! ### Numbers -/

/-- The largest integer. -/
def maxInteger : Nat := .pow 2 63 - 1

/-- The digits of a whole number, which begin with a zero only if there is no other. -/
def wholeDigits? : List Char → Option (List Char × List Char)
  | '0' :: cs => some (['0'], cs)
  | cs => digits? 10 cs

/-- The digits after a point, if there is one. -/
def fraction? : List Char → Option (List Char × List Char)
  | '.' :: cs => digits? 10 cs
  | cs => some ([], cs)

/-- The exponent after its mark, if there is one. -/
def exponent? : List Char → Option (Int × List Char)
  | c :: cs =>
    if c == 'e' || c == 'E' then
      match cs with
      | '-' :: cs => (digits? 10 cs).map fun (ds, rest) => (-Int.ofNat (ofDigits 10 ds), rest)
      | '+' :: cs => (digits? 10 cs).map fun (ds, rest) => (Int.ofNat (ofDigits 10 ds), rest)
      | cs => (digits? 10 cs).map fun (ds, rest) => (Int.ofNat (ofDigits 10 ds), rest)
    else some (0, c :: cs)
  | [] => some (0, [])

/-- Whether a decimal number with `n` before its exponent is nearer to infinity than to any finite
number of 64 bits. -/
def overflows (n : Nat) (exponent : Int) : Bool :=
  let size := Int.ofNat (toString n).length + exponent
  if n = 0 || size < 300 then false
  else if size > 320 then true
  else
    let bound := (.pow 2 54 - 1) * .pow 2 970
    if exponent < 0 then bound * .pow 10 (-exponent).toNat ≤ n
    else bound ≤ n * .pow 10 exponent.toNat

/-- The text after a decimal number behind its sign. -/
def decimal? (negative : Bool) (cs : List Char) : Option (List Char) := do
  let (whole, rest) ← wholeDigits? cs
  let (fraction, afterFraction) ← fraction? rest
  let (exponent, stop) ← exponent? afterFraction
  if stop.length = rest.length then
    if ofDigits 10 whole ≤ maxInteger + (if negative then 1 else 0) then some stop else none
  else if negative || !overflows (ofDigits 10 (whole ++ fraction)) (exponent - fraction.length) then
    some stop
  else none

/-- The text after a whole number in a base other than ten. -/
def inBase? (base : Nat) (cs : List Char) : Option (List Char) :=
  (digits? base cs).bind fun (ds, rest) =>
    if ofDigits base ds ≤ maxInteger then some rest else none

/-- The text after a number behind its sign. -/
def unsigned? (negative : Bool) (cs : List Char) : Option (List Char) :=
  (after? "inf" cs).or ((after? "nan" cs).or (decimal? negative cs))

/-- The text after a number. -/
def number? : List Char → Option (List Char)
  | '+' :: cs => unsigned? false cs
  | '-' :: cs => unsigned? true cs
  | '0' :: 'x' :: cs => inBase? 16 cs
  | '0' :: 'o' :: cs => inBase? 8 cs
  | '0' :: 'b' :: cs => inBase? 2 cs
  | cs => unsigned? false cs

/-! ### Dates and times -/

/-- What a text begins with. -/
inductive Reading where
  /-- something else -/
  | other
  /-- the beginning of what is looked for, with a mistake in it -/
  | malformed
  /-- what is looked for, before the rest -/
  | found (rest : List Char)

/-- A number of two digits within bounds. -/
def twoDigits? (least most : Nat) : List Char → Option (Nat × List Char)
  | a :: b :: cs =>
    let n := ofDigits 10 [a, b]
    if a.isDigit && b.isDigit && least ≤ n && n ≤ most then some (n, cs) else none
  | _ => none

/-- The days of a month. -/
def daysOfMonth (year month : Nat) : Nat :=
  let isLeap := year % 4 = 0 && (year % 100 != 0 || year % 400 = 0)
  match month with
  | 2 => if isLeap then 29 else 28
  | 4 | 6 | 9 | 11 => 30
  | _ => 31

/-- The text after the month and the day of a date. -/
def monthAndDay? (year : Nat) (cs : List Char) : Option (List Char) := do
  let (month, rest) ← twoDigits? 1 12 cs
  let rest ← after? "-" rest
  let (_, rest) ← twoDigits? 1 (daysOfMonth year month) rest
  some rest

/-- A date at the start of a text. -/
def date (cs : List Char) : Reading :=
  let year := cs.take 4
  match year.length, year.all Char.isDigit, cs.drop 4 with
  | 4, true, '-' :: rest =>
    match monthAndDay? (ofDigits 10 year) rest with
    | some rest => .found rest
    | none => .malformed
  | _, _, _ => .other

/-- The text after the fraction of a second, if there is one. -/
def skipFraction : List Char → List Char
  | '.' :: c :: cs => if c.isDigit then cs.dropWhile Char.isDigit else '.' :: c :: cs
  | cs => cs

/-- The text after the minutes and seconds of a time. -/
def minutesAndSeconds? (cs : List Char) : Option (List Char) := do
  let (_, rest) ← twoDigits? 0 59 cs
  let rest ← after? ":" rest
  let (_, rest) ← twoDigits? 0 60 rest
  some (skipFraction rest)

/-- A time of day at the start of a text. -/
def time (cs : List Char) : Reading :=
  match twoDigits? 0 23 cs with
  | some (_, ':' :: rest) =>
    match minutesAndSeconds? rest with
    | some rest => .found rest
    | none => .malformed
  | _ => .other

/-- The text after the distance from universal time, if there is one. -/
def skipOffset? : List Char → Option (List Char)
  | c :: cs =>
    if c == 'Z' || c == 'z' then some cs
    else if c == '+' || c == '-' then do
      let (_, rest) ← twoDigits? 0 23 cs
      let rest ← after? ":" rest
      let (_, rest) ← twoDigits? 0 59 rest
      some rest
    else some (c :: cs)
  | [] => some []

/-- A date, a time, or both at the start of a text. -/
def dateTime (cs : List Char) : Reading :=
  match date cs with
  | .malformed => .malformed
  | .other => time cs
  | .found rest =>
    match rest with
    | c :: afterMark =>
      if c == 'T' || c == 't' || c == ' ' then
        match time afterMark with
        | .malformed => .malformed
        | .other => .found rest
        | .found rest =>
          match skipOffset? rest with
          | some rest => .found rest
          | none => .malformed
      else .found rest
    | [] => .found []

/-! ### All of them -/

/-- The text after a boolean, a number, a date or a time. -/
def scalar? (cs : List Char) : Option (List Char) :=
  match dateTime cs with
  | .found rest => some rest
  | .malformed => none
  | .other => (after? "true" cs).or ((after? "false" cs).or (number? cs))

end Toml

end Highlighting
