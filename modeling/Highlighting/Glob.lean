/-!
# File name patterns

A file name pattern is literal text with `?` for any character, `*` for any text, `**` for any
number of directories, and brackets for a choice of characters.  `Glob.parse?` reads one and
`Glob.isMatch` compares it with a whole name, ignoring the case of ASCII letters.  Directory
separators and leading dots are like any other character, except that `**` only stops at the
start and after a separator.
-/

namespace Highlighting

/-- One part of a file name pattern. -/
inductive GlobPart where
  | char (c : Char)
  /-- `?` -/
  | anyChar
  /-- `*` -/
  | anyText
  /-- `**` -/
  | anyDirs
  /-- one of the characters of ranges, or with `isCompl` none of them -/
  | within (isCompl : Bool) (ranges : List (Char × Char))
deriving DecidableEq, Inhabited

/-- A file name pattern. -/
abbrev Glob := List GlobPart

namespace Glob

/-- The ranges between brackets; a single character is a range of its own. -/
def ranges : List Char → List (Char × Char)
  | a :: '-' :: b :: rest => (a, b) :: ranges rest
  | a :: rest => (a, a) :: ranges rest
  | [] => []

/-- The characters between brackets, after the first bracket: one at least, which may itself be a
closing bracket. -/
def brackets? (cs : List Char) : Option (GlobPart × List Char) :=
  let (isCompl, body) := match cs with
    | '!' :: rest => (true, rest)
    | _ => (false, cs)
  match body with
  | [] => none
  | first :: more =>
    match more.dropWhile (· != ']') with
    | [] => none
    | _ :: rest => some (.within isCompl (ranges (first :: more.takeWhile (· != ']'))), rest)

/-- Whether a place is at the start or after a separator. -/
def followsSeparator : Option Char → Bool
  | none => true
  | some c => c == '/'

/-- Adds `**`, which says nothing new after another one. -/
def addDirs : List GlobPart → List GlobPart
  | .anyDirs :: p :: ps => .anyDirs :: p :: ps
  | ps => .anyDirs :: ps

/-- Reads the rest of a pattern after a character; the parts so far come latest first.  Each step
reads a character at least, which the first number counts. -/
def parseFrom : Nat → Option Char → List GlobPart → List Char → Option Glob
  | _, _, found, [] => some found.reverse
  | 0, _, _, _ => none
  | n + 1, before, found, c :: cs =>
    match c with
    | '?' => parseFrom n (some c) (.anyChar :: found) cs
    | '[' =>
      match brackets? cs with
      | some (part, rest) => parseFrom n (some ']') (part :: found) rest
      | none => none
    | '*' =>
      match cs with
      | '*' :: rest =>
        if followsSeparator before then
          match rest with
          | [] => some (addDirs found).reverse
          | '/' :: rest => parseFrom n (some '/') (addDirs found) rest
          | _ => none
        else none
      | _ => parseFrom n (some c) (.anyText :: found) cs
    | _ => parseFrom n (some c) (.char c :: found) cs

/-- Reads a file name pattern. -/
def parse? (text : String) : Option Glob := parseFrom text.length none [] text.toList

/-- Equality up to the case of ASCII letters. -/
def sameChar (a b : Char) : Bool := a.toLower == b.toLower

/-- Whether a character lies in a range, as it is or, for a range of ASCII letters, in another
case. -/
def inRange (c : Char) (range : Char × Char) : Bool :=
  let (first, last) := range
  first ≤ c && c ≤ last ||
    first == last && sameChar c first ||
    first.isAlpha && last.isAlpha && c.toNat < 0x80 &&
      first.toLower ≤ c.toLower && c.toLower ≤ last.toLower

/-- Whether a part that stands for one character accepts a character. -/
def accepts : GlobPart → Char → Bool
  | .char a, c => sameChar a c
  | .anyChar, _ => true
  | .within isCompl ranges, c => ranges.any (inRange c) != isCompl
  | .anyText, _ | .anyDirs, _ => false

/-- The outcome of comparing the rest of a pattern with the rest of a name. -/
inductive Outcome where
  | matched
  /-- the parts differ from the name here -/
  | differs
  /-- the name is too short for the parts, and would be so after any longer beginning -/
  | tooShort
deriving DecidableEq

/-- The first outcome other than `differs` when the rest of a pattern is tried after longer and
longer beginnings of a name, and otherwise the outcome at the end of the name. -/
def tryAfter (rest : Bool → List Char → Outcome) (onlyDirs : Bool) :
    Bool → List Char → Outcome
  | after, cs =>
    match cs with
    | [] => rest after []
    | c :: cs =>
      let isSeparator := c == '/'
      if onlyDirs && !isSeparator then tryAfter rest onlyDirs isSeparator cs
      else
        match rest isSeparator cs with
        | .differs => tryAfter rest onlyDirs isSeparator cs
        | outcome => outcome

/-- Compares a pattern with a name; `after` says whether the name so far ends in a separator. -/
def compare : Glob → Bool → List Char → Outcome
  | [], _, [] => .matched
  | [], _, _ :: _ => .differs
  | .anyText :: parts, after, cs =>
    match compare parts after cs with
    | .differs => tryAfter (compare parts) false after cs
    | outcome => outcome
  | .anyDirs :: parts, after, cs =>
    match compare parts after cs with
    | .differs => tryAfter (compare parts) true after cs
    | outcome => outcome
  | _ :: _, _, [] => .tooShort
  | part :: parts, _, c :: cs =>
    if accepts part c then compare parts (c == '/') cs else .differs

/-- Whether a pattern matches a whole name. -/
def isMatch (g : Glob) (name : String) : Bool := compare g true name.toList == .matched

end Glob

end Highlighting
