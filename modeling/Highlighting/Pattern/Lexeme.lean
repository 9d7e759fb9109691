import Highlighting.Pattern.Basic
import Highlighting.Pattern.CharClass
import Highlighting.Settings.Limits

/-!
# Lexemes of patterns

A written pattern is a list of lexemes: sets of characters, conditions on places, repetition
marks, bars, flags, and the two ends of groups.  `Pattern.lexemes` reads them off the text, or
says why it cannot.  How they nest is decided by `Pattern.ofLexemes` in the next module.

Written characters stand for themselves, except `\ . + * ? ( ) | [ { ^ $`; a backslash makes a
mark literal or names a class, a condition, or a character by its code point.
-/

namespace Highlighting

/-- Why a text is not a pattern. -/
inductive PatternError where
  | unclosedGroup
  | unopenedGroup
  | nothingToRepeat
  | unclosedRepetition
  | badCount
  | emptyRange
  | unclosedClass
  | badClassItem
  | badEscape
  | badCodePoint
  | unsupported
  | badFlag
  | badGroupName
  | tooLarge
  | tooDeep
deriving DecidableEq, Inhabited

namespace PatternError

/-- The cause in words. -/
def message : PatternError → String
  | unclosedGroup => "unclosed group"
  | unopenedGroup => "unopened group"
  | nothingToRepeat => "repetition operator missing expression"
  | unclosedRepetition => "unclosed counted repetition"
  | badCount => "invalid repetition count"
  | emptyRange => "invalid range: the start must not be after the end"
  | unclosedClass => "unclosed character class"
  | badClassItem => "invalid item in a character class"
  | badEscape => "unrecognized escape sequence"
  | badCodePoint => "not a code point of a character"
  | unsupported => "look-around and backreferences are not supported"
  | badFlag => "invalid flags"
  | badGroupName => "invalid name of a capture group"
  | tooLarge => s!"Compiled regex exceeds size limit of {Limits.maxPatternWeight} bytes."
  | tooDeep => "the pattern is nested too deeply"

end PatternError

/-- The switches that change how the rest of a group is read. -/
structure PatternFlags where
  /-- letters match their case variants -/
  ignoreCase : Bool := false
  /-- `^` and `$` also match around line feeds -/
  multiLine : Bool := false
  /-- `.` also matches the line feed -/
  dotAll : Bool := false
  /-- a plain repetition is lazy and one with `?` greedy -/
  swapGreed : Bool := false
deriving DecidableEq, Inhabited

/-- What a stretch of a written pattern stands for, and how deeply it is nested. -/
structure Nested (α : Type) where
  value : α
  depth : Nat

namespace Nested

/-- What is not made of parts. -/
def leaf {α : Type} (a : α) : Nested α := ⟨a, 0⟩

/-- The depth of a list of parts: a single part adds none to its own. -/
def joinedDepth : List Nat → Nat
  | [] => 0
  | [d] => d
  | ds => ds.foldl max 0 + 1

end Nested

/-- One lexeme of a written pattern. -/
inductive Lexeme where
  /-- one character of a set, which may be a class with classes in it -/
  | set (s : Nested CharClass)
  /-- `.` -/
  | dot
  /-- `^` -/
  | caret
  /-- `$` -/
  | dollar
  /-- `\A`, `\z`, `\b` or `\B` -/
  | look (l : Look)
  /-- a repetition of what comes before, `lazy` when followed by `?` -/
  | repeated (min : Nat) (max : Option Nat) (isLazy : Bool)
  /-- `|` -/
  | bar
  /-- the start of a group that records its range -/
  | openGroup (name : Option (List Char))
  /-- the start of a group that only groups, with changes of flags -/
  | openPlain (change : PatternFlags → PatternFlags)
  /-- changes of flags for the rest of the group -/
  | flags (change : PatternFlags → PatternFlags)
  /-- `)` -/
  | close

/-- A piece of a pattern and the text after it, or why there is none. -/
abbrev Piece (α : Type) := Except PatternError (α × List Char)

namespace Pattern

/-! ### Escapes -/

/-- The characters that a backslash makes literal because they may mean something. -/
def isMark (c : Char) : Bool := "\\.+*?()|[]\x7b\x7d^$#&-~".toList.contains c

/-- What a backslash and the character after it stand for. -/
inductive Escaped where
  | char (c : Char)
  | set (s : CharClass)
  | look (l : Look)

/-- The value of a hexadecimal digit. -/
def hexDigit? (c : Char) : Option Nat :=
  if '0' ≤ c && c ≤ '9' then some (c.toNat - '0'.toNat)
  else if 'a' ≤ c && c ≤ 'f' then some (c.toNat - 'a'.toNat + 10)
  else if 'A' ≤ c && c ≤ 'F' then some (c.toNat - 'A'.toNat + 10)
  else none

/-- The value of a list of hexadecimal digits. -/
def hexValue? (cs : List Char) : Option Nat :=
  cs.foldl (fun acc c => match acc, hexDigit? c with
    | some n, some d => some (16 * n + d)
    | _, _ => none) (some 0)

/-- The character with a code point. -/
def charOf? (n : Nat) : Option Char := if n.isValidChar then some (Char.ofNat n) else none

/-- A code point after `\x`, `\u` or `\U`: a fixed number of digits, or digits in braces. -/
def hexEscape (width : Nat) (cs : List Char) : Piece Char :=
  match cs with
  | '\x7b' :: rest =>
    let digits := rest.takeWhile (· != '\x7d')
    match rest.dropWhile (· != '\x7d') with
    | [] => .error .badCodePoint
    | _ :: after =>
      if digits.isEmpty then .error .badCodePoint
      else match (hexValue? digits).bind charOf? with
        | some c => .ok (c, after)
        | none => .error .badCodePoint
  | _ =>
    if cs.length < width then .error .badCodePoint
    else match (hexValue? (cs.take width)).bind charOf? with
      | some c => .ok (c, cs.drop width)
      | none => .error .badCodePoint

/-- The escape after a backslash. -/
def escape? : List Char → Piece Escaped
  | [] => .error .badEscape
  | c :: rest =>
    match c with
    | 'd' => .ok (.set (.leaf .digit), rest)
    | 'D' => .ok (.set (.compl (.leaf .digit)), rest)
    | 's' => .ok (.set (.leaf .blank), rest)
    | 'S' => .ok (.set (.compl (.leaf .blank)), rest)
    | 'w' => .ok (.set (.leaf .word), rest)
    | 'W' => .ok (.set (.compl (.leaf .word)), rest)
    | 'A' => .ok (.look .textStart, rest)
    | 'z' => .ok (.look .textEnd, rest)
    | 'b' => .ok (.look .wordBoundary, rest)
    | 'B' => .ok (.look .noWordBoundary, rest)
    | 'x' => (hexEscape 2 rest).map fun (ch, r) => (.char ch, r)
    | 'u' => (hexEscape 4 rest).map fun (ch, r) => (.char ch, r)
    | 'U' => (hexEscape 8 rest).map fun (ch, r) => (.char ch, r)
    | 'a' => .ok (.char '\x07', rest)
    | 'f' => .ok (.char '\x0c', rest)
    | 'n' => .ok (.char '\n', rest)
    | 'r' => .ok (.char '\r', rest)
    | 't' => .ok (.char '\t', rest)
    | 'v' => .ok (.char '\x0b', rest)
    | _ =>
      if c.isDigit then .error .unsupported
      else if c.toNat < 0x80 && !c.isAlphanum && c != '<' && c != '>' then .ok (.char c, rest)
      else .error .badEscape

/-! ### Character classes -/

/-- How two sets in brackets are combined. -/
inductive ClassOp where
  | inter
  | diff
  | symmDiff

/-- The combination of two sets. -/
def ClassOp.apply : ClassOp → CharClass → CharClass → CharClass
  | inter => .inter
  | diff => .diff
  | symmDiff => .symmDiff

/-- An open bracket: whether the class is a complement, the part before a pending operator, and
the items of the part that is being read. -/
structure ClassFrame where
  isCompl : Bool
  pending : Option (Nested CharClass × ClassOp)
  items : List (Nested CharClass)

namespace ClassFrame

/-- The set read so far. -/
def value (f : ClassFrame) : Nested CharClass :=
  let part := CharClass.unionAll (f.items.reverse.map (·.value))
  let depth := Nested.joinedDepth (f.items.map (·.depth))
  match f.pending with
  | some (s, op) => ⟨op.apply s.value part, max s.depth depth + 1⟩
  | none => ⟨part, depth⟩

/-- The set of the whole class once its bracket closes. -/
def closed (f : ClassFrame) : Nested CharClass :=
  ⟨if f.isCompl then .compl f.value.value else f.value.value, f.value.depth + 1⟩

/-- The class with one more item. -/
def add (f : ClassFrame) (s : Nested CharClass) : ClassFrame := { f with items := s :: f.items }

/-- The class after an operator. -/
def operator (f : ClassFrame) (op : ClassOp) : ClassFrame :=
  { f with pending := some (f.value, op), items := [] }

end ClassFrame

/-- The start of a class, after its bracket: a complement mark, hyphens, and a closing bracket
that stands for itself because it comes first. -/
def openClass (cs : List Char) : ClassFrame × List Char :=
  let (isCompl, cs) := match cs with
    | '^' :: rest => (true, rest)
    | _ => (false, cs)
  let hyphens := (cs.takeWhile (· == '-')).map fun c => Nested.leaf (CharClass.single c)
  match hyphens, cs.dropWhile (· == '-') with
  | [], ']' :: rest => (⟨isCompl, none, [.leaf (.single ']')]⟩, rest)
  | _, rest => (⟨isCompl, none, hyphens⟩, rest)

/-- The sets of characters of ASCII that have names in brackets. -/
def asciiClass? (name : List Char) : Option CharSet :=
  let digits := CharSet.range '0' '9'
  let lower := CharSet.range 'a' 'z'
  let upper := CharSet.range 'A' 'Z'
  let letters := upper.union lower
  match String.ofList name with
  | "alnum" => some (digits.union letters)
  | "alpha" => some letters
  | "ascii" => some (.range '\x00' '\x7f')
  | "blank" => some ((CharSet.single '\t').union (.single ' '))
  | "cntrl" => some ((CharSet.range '\x00' '\x1f').union (.single '\x7f'))
  | "digit" => some digits
  | "graph" => some (.range '!' '~')
  | "lower" => some lower
  | "print" => some (.range ' ' '~')
  | "punct" => some ((CharSet.range '!' '~').diff (digits.union letters))
  | "space" => some ((CharSet.range '\t' '\r').union (.single ' '))
  | "upper" => some upper
  | "word" => some ((digits.union letters).union (.single '_'))
  | "xdigit" => some (digits.union ((CharSet.range 'A' 'F').union (.range 'a' 'f')))
  | _ => none

/-- A named class after its first bracket, as in `[:alpha:]` or `[:^alpha:]`. -/
def namedClass? : List Char → Option (CharClass × List Char)
  | ':' :: cs =>
    let (isCompl, cs) := match cs with
      | '^' :: rest => (true, rest)
      | _ => (false, cs)
    match cs.dropWhile (· != ':'), asciiClass? (cs.takeWhile (· != ':')) with
    | ':' :: ']' :: rest, some s =>
      some (if isCompl then .compl (.leaf s) else .leaf s, rest)
    | _, _ => none
  | _ => none

/-- One item of a class: a character or an escape. -/
def classItem : List Char → Piece Escaped
  | [] => .error .unclosedClass
  | '\\' :: rest => escape? rest
  | c :: rest => .ok (.char c, rest)

/-- An item of a class, or a range between two of them. -/
def classRange (cs : List Char) : Except PatternError (CharClass × List Char) := do
  let (first, rest) ← classItem cs
  let isRange := match rest with
    | '-' :: ']' :: _ => false
    | '-' :: '-' :: _ => false
    | '-' :: _ => true
    | _ => false
  if isRange then
    let (last, rest) ← classItem (rest.drop 1)
    match first, last with
    | .char a, .char b => if a ≤ b then .ok (.leaf (.range a b), rest) else .error .emptyRange
    | _, _ => .error .badClassItem
  else
    match first with
    | .char c => .ok (.single c, rest)
    | .set s => .ok (s, rest)
    | .look _ => .error .badClassItem

/-- The rest of a class inside the classes that are still open.  Each step reads a character at
least, which the first argument counts. -/
def classRest : Nat → List ClassFrame → ClassFrame → List Char →
    Except PatternError (Nested CharClass × List Char)
  | 0, _, _, _ => .error .unclosedClass
  | n + 1, outer, f, cs =>
    match cs with
    | [] => .error .unclosedClass
    | '[' :: rest =>
      match namedClass? rest with
      | some (s, rest) => classRest n outer (f.add (.leaf s)) rest
      | none =>
        let (inner, rest) := openClass rest
        classRest n (f :: outer) inner rest
    | ']' :: rest =>
      match outer with
      | [] => .ok (f.closed, rest)
      | g :: outer => classRest n outer (g.add f.closed) rest
    | '&' :: '&' :: rest => classRest n outer (f.operator .inter) rest
    | '-' :: '-' :: rest => classRest n outer (f.operator .diff) rest
    | '~' :: '~' :: rest => classRest n outer (f.operator .symmDiff) rest
    | _ => do
      let (s, rest) ← classRange cs
      classRest n outer (f.add (.leaf s)) rest

/-- A class after its bracket. -/
def charClass (cs : List Char) : Piece (Nested CharClass) :=
  let (f, rest) := openClass cs
  classRest (rest.length + 1) [] f rest

/-! ### Repetitions -/

/-- A repetition mark and the `?` that may follow it. -/
def repetition (min : Nat) (max : Option Nat) : List Char → Lexeme × List Char
  | '?' :: rest => (.repeated min max true, rest)
  | rest => (.repeated min max false, rest)

/-- A decimal number below `2 ^ 32`, with blanks before it. -/
def countNumber (cs : List Char) : Piece Nat :=
  let cs := cs.dropWhile isBlank
  let digits := cs.takeWhile Char.isDigit
  let rest := (cs.dropWhile Char.isDigit).dropWhile isBlank
  let n := digits.foldl (fun n d => 10 * n + (d.toNat - '0'.toNat)) 0
  if digits.isEmpty || n ≥ .pow 2 32 then .error .badCount else .ok (n, rest)

/-- A counted repetition after its brace. -/
def counted (cs : List Char) : Except PatternError (Lexeme × List Char) := do
  let (min, rest) ← countNumber cs
  match rest with
  | '\x7d' :: rest => .ok (repetition min (some min) rest)
  | ',' :: '\x7d' :: rest => .ok (repetition min none rest)
  | ',' :: rest =>
    let (max, rest) ← countNumber rest
    match rest with
    | '\x7d' :: rest =>
      if min ≤ max then .ok (repetition min (some max) rest) else .error .badCount
    | _ => .error .unclosedRepetition
  | _ => .error .unclosedRepetition

/-! ### Groups -/

/-- Whether a character may stand in the name of a group. -/
def isNameChar (first : Bool) (c : Char) : Bool :=
  c == '_' || isAlphabetic c ||
    !first && (c == '.' || c == '[' || c == ']' || isNumeric c)

/-- The name of a group up to its angle bracket. -/
def groupName (cs : List Char) : Piece Lexeme :=
  let name := cs.takeWhile (· != '>')
  match name, cs.dropWhile (· != '>') with
  | c :: more, _ :: rest =>
    if isNameChar true c && more.all (isNameChar false) then .ok (.openGroup (some name), rest)
    else .error .badGroupName
  | _, _ => .error .badGroupName

/-- The change that one flag letter makes. -/
def flagChange (on : Bool) : Char → Option (PatternFlags → PatternFlags)
  | 'i' => some fun f => { f with ignoreCase := on }
  | 'm' => some fun f => { f with multiLine := on }
  | 's' => some fun f => { f with dotAll := on }
  | 'U' => some fun f => { f with swapGreed := on }
  | 'u' => if on then some id else none
  | _ => none

/-- The changes of a list of distinct flag letters. -/
def flagChanges (on : Bool) : List Char → Except PatternError (PatternFlags → PatternFlags)
  | [] => .ok id
  | c :: cs => do
    let rest ← flagChanges on cs
    match flagChange on c with
    | some change => if cs.contains c then .error .badFlag else .ok (rest ∘ change)
    | none => .error .badFlag

/-- The flags between `(?` and the `)` or `:` that ends them. -/
def flagList (letters : List Char) : Except PatternError (PatternFlags → PatternFlags) :=
  let on := letters.takeWhile (· != '-')
  match letters.dropWhile (· != '-') with
  | [] => flagChanges true on
  | _ :: off => do
    if off.isEmpty || on.any off.contains then .error .badFlag
    else
      let changeOn ← flagChanges true on
      let changeOff ← flagChanges false off
      .ok (changeOff ∘ changeOn)

/-- What begins with a parenthesis, after it. -/
def groupStart : List Char → Piece Lexeme
  | '?' :: 'P' :: '<' :: rest => groupName rest
  | '?' :: '=' :: _ => .error .unsupported
  | '?' :: '!' :: _ => .error .unsupported
  | '?' :: '<' :: '=' :: _ => .error .unsupported
  | '?' :: '<' :: '!' :: _ => .error .unsupported
  | '?' :: '<' :: rest => groupName rest
  | '?' :: rest =>
    let isEnd := fun c => c == ':' || c == ')'
    let letters := rest.takeWhile (fun c => !isEnd c)
    match rest.dropWhile (fun c => !isEnd c) with
    | ':' :: after => (flagList letters).map fun change => (.openPlain change, after)
    | ')' :: after =>
      if letters.isEmpty then .error .nothingToRepeat
      else (flagList letters).map fun change => (.flags change, after)
    | _ => .error .unclosedGroup
  | rest => .ok (.openGroup none, rest)

/-! ### All lexemes -/

/-- The first lexeme of a text that is not empty. -/
def lexeme (c : Char) (rest : List Char) : Piece Lexeme :=
  match c with
  | '(' => groupStart rest
  | ')' => .ok (.close, rest)
  | '|' => .ok (.bar, rest)
  | '[' => (charClass rest).map fun (s, r) => (.set s, r)
  | '?' => .ok (repetition 0 (some 1) rest)
  | '*' => .ok (repetition 0 none rest)
  | '+' => .ok (repetition 1 none rest)
  | '\x7b' => counted rest
  | '.' => .ok (.dot, rest)
  | '^' => .ok (.caret, rest)
  | '$' => .ok (.dollar, rest)
  | '\\' => (escape? rest).map fun
    | (.char c, r) => (.set (.leaf (.single c)), r)
    | (.set s, r) => (.set (.leaf s), r)
    | (.look l, r) => (.look l, r)
  | c => .ok (.set (.leaf (.single c)), rest)

/-- The lexemes of a text after those found so far, which come latest first.  Each step reads a
character at least, which the first argument counts. -/
def lexemesAfter : Nat → List Lexeme → List Char → Except PatternError (List Lexeme)
  | _, found, [] => .ok found.reverse
  | 0, found, _ => .ok found.reverse
  | n + 1, found, c :: cs =>
    match lexeme c cs with
    | .ok (l, rest) => lexemesAfter n (l :: found) rest
    | .error e => .error e

/-- The lexemes of a written pattern. -/
def lexemes (cs : List Char) : Except PatternError (List Lexeme) := lexemesAfter cs.length [] cs

end Pattern

end Highlighting
