import Highlighting.Extension.Scalar
import Highlighting.Pattern.Lexeme

/-!
# The file format of extensions

Extension files are written in TOML.  All of its values are read: strings in all four notations,
lists, inline tables, and scalars, of which nothing is kept.  Of its tables, an extension has a
place for the top level and for lists of tables with a header in double brackets, and of its keys,
outside inline tables, for single words.  `Toml.read?` reads such files and refuses all others.
-/

namespace Highlighting

/-- A value of an extension file. -/
inductive Toml where
  | string (s : String)
  | list (items : List Toml)
  /-- a table, `growing` when it was made by the dots of a key, so that others may add to it -/
  | table (fields : List (String × Toml)) (growing : Bool)
  /-- a boolean, a number, a date or a time -/
  | scalar
deriving Inhabited

/-- A file: the fields of the top level, and the tables with headers in order. -/
structure TomlFile where
  fields : List (String × Toml) := []
  tables : List (String × List (String × Toml)) := []
deriving Inhabited

namespace Toml

/-! ### Blanks, comments and ends of lines -/

/-- Whether a character may separate words within a line. -/
def isGap (c : Char) : Bool := c == ' ' || c == '\t'

/-- The text after the blanks at its start. -/
def skipGap (cs : List Char) : List Char := cs.dropWhile isGap

/-- Whether a character may stand in a comment or in a literal string. -/
def isPlainChar (c : Char) : Bool := c == '\t' || 0x20 ≤ c.toNat && c.toNat != 0x7f

/-- The text after a comment, if there is one. -/
def skipComment : List Char → List Char
  | '#' :: cs => cs.dropWhile isPlainChar
  | cs => cs

/-- The text after an end of line. -/
def newline? : List Char → Option (List Char)
  | '\n' :: cs => some cs
  | '\r' :: '\n' :: cs => some cs
  | _ => none

/-- The text after the rest of a line that holds nothing more than a comment. -/
def endOfLine? (cs : List Char) : Option (List Char) :=
  match skipComment (skipGap cs) with
  | [] => some []
  | cs => newline? cs

/-- The text after blanks and ends of lines; the number bounds how many lines are passed. -/
def skipBlankLines : Nat → List Char → List Char
  | 0, cs => cs
  | n + 1, cs =>
    match newline? (skipGap cs) with
    | some cs => skipBlankLines n cs
    | none => skipGap cs

/-- The text after blanks, comments and ends of lines; the number bounds how many lines are
passed. -/
def skipLines : Nat → List Char → List Char
  | 0, cs => cs
  | n + 1, cs =>
    let cs := skipComment (skipGap cs)
    match newline? cs with
    | some cs => skipLines n cs
    | none => cs

/-! ### Strings -/

/-- A character given by the digits after `\u` or `\U`. -/
def codePoint? (width : Nat) (cs : List Char) : Option (Char × List Char) :=
  if cs.length < width then none
  else (Pattern.hexValue? (cs.take width)).bind Pattern.charOf? |>.map fun c => (c, cs.drop width)

/-- The character that is written after a backslash. -/
def escape? : List Char → Option (Char × List Char)
  | 'b' :: cs => some ('\x08', cs)
  | 't' :: cs => some ('\t', cs)
  | 'n' :: cs => some ('\n', cs)
  | 'f' :: cs => some ('\x0c', cs)
  | 'r' :: cs => some ('\r', cs)
  | '"' :: cs => some ('"', cs)
  | '\\' :: cs => some ('\\', cs)
  | 'u' :: cs => codePoint? 4 cs
  | 'U' :: cs => codePoint? 8 cs
  | _ => none

/-- The rest of a string between quotes; the characters so far come latest first. -/
def basicString : Nat → List Char → List Char → Option (String × List Char)
  | 0, _, _ => none
  | n + 1, found, cs =>
    match cs with
    | '"' :: cs => some (String.ofList found.reverse, cs)
    | '\\' :: cs =>
      match escape? cs with
      | some (c, cs) => basicString n (c :: found) cs
      | none => none
    | c :: cs => if isPlainChar c then basicString n (c :: found) cs else none
    | [] => none

/-- A string between apostrophes, after the first. -/
def literalString (cs : List Char) : Option (String × List Char) :=
  match cs.dropWhile fun c => isPlainChar c && c != '\'' with
  | '\'' :: rest =>
    some (String.ofList (cs.takeWhile fun c => isPlainChar c && c != '\''), rest)
  | _ => none

/-- Where a string of several lines ends: at three marks, of which up to two more before them
belong to the string.  Gives their number and the rest. -/
def closing? (mark : Char) (cs : List Char) : Option (Nat × List Char) :=
  let run := (cs.takeWhile (· == mark)).length
  if run < 3 then none
  else
    let extra := min (run - 3) 2
    some (extra, cs.drop (extra + 3))

/-- The rest of a string between triple quotes. -/
def longString : Nat → List Char → List Char → Option (String × List Char)
  | 0, _, _ => none
  | n + 1, found, cs =>
    match closing? '"' cs with
    | some (extra, rest) =>
      some (String.ofList (List.replicate extra '"' ++ found).reverse, rest)
    | none =>
      match cs with
      | [] => none
      | '\\' :: rest =>
        match newline? (skipGap rest) with
        | some rest => longString n found (skipBlankLines (n + 1) rest)
        | none =>
          match escape? rest with
          | some (c, rest) => longString n (c :: found) rest
          | none => none
      | '\r' :: '\n' :: rest => longString n ('\n' :: found) rest
      | c :: rest =>
        if isPlainChar c || c == '\n' then longString n (c :: found) rest else none

/-- The rest of a string between triple apostrophes. -/
def longLiteral : Nat → List Char → List Char → Option (String × List Char)
  | 0, _, _ => none
  | n + 1, found, cs =>
    match closing? '\'' cs with
    | some (extra, rest) =>
      some (String.ofList (List.replicate extra '\'' ++ found).reverse, rest)
    | none =>
      match cs with
      | [] => none
      | '\r' :: '\n' :: rest => longLiteral n ('\n' :: found) rest
      | c :: rest =>
        if isPlainChar c || c == '\n' then longLiteral n (c :: found) rest else none

/-- The text after an end of line, or the text itself. -/
def dropNewline (cs : List Char) : List Char := (newline? cs).getD cs

/-- A string on one line. -/
def shortString? : List Char → Option (String × List Char)
  | '"' :: cs => basicString (cs.length + 1) [] cs
  | '\'' :: cs => literalString cs
  | _ => none

/-- A string in any notation. -/
def string? : List Char → Option (String × List Char)
  | '"' :: '"' :: '"' :: cs =>
    let cs := dropNewline cs
    longString (cs.length + 1) [] cs
  | '\'' :: '\'' :: '\'' :: cs =>
    let cs := dropNewline cs
    longLiteral (cs.length + 1) [] cs
  | cs => shortString? cs

/-! ### Keys and values -/

/-- Whether a character may stand in a key without quotes. -/
def isKeyChar (c : Char) : Bool := c.isAlphanum || c == '_' || c == '-'

/-- A key that is a single word or string. -/
def key? (cs : List Char) : Option (String × List Char) :=
  match cs with
  | '"' :: _ | '\'' :: _ => shortString? cs
  | _ =>
    match cs.takeWhile isKeyChar with
    | [] => none
    | word => some (String.ofList word, cs.dropWhile isKeyChar)

/-- A key and the text after its equals sign. -/
def keyAndEquals? (cs : List Char) : Option (String × List Char) := do
  let (key, rest) ← key? (skipGap cs)
  match skipGap rest with
  | '=' :: rest => some (key, skipGap rest)
  | _ => none

/-- Lists and tables may be nested less deeply than this, and a key has fewer parts. -/
def depthLimit : Nat := 80

/-- The words of a dotted key and the text after its equals sign; the number bounds the words that
may still come. -/
def dottedKey? : Nat → List String → List Char → Option (List String × List Char)
  | 0, _, _ => none
  | n + 1, found, cs => do
    let (key, rest) ← key? (skipGap cs)
    match skipGap rest with
    | '.' :: rest => dottedKey? n (key :: found) rest
    | '=' :: rest => some ((key :: found).reverse, skipGap rest)
    | _ => none

/-- Adds a field unless the key has one already. -/
def addField? (fields : List (String × Toml)) (key : String) (v : Toml) :
    Option (List (String × Toml)) :=
  if fields.any fun f => f.1 == key then none else some (fields ++ [(key, v)])

/-- Gives the field of a key a value, or adds the field at the end. -/
def setField (key : String) (v : Toml) : List (String × Toml) → List (String × Toml)
  | [] => [(key, v)]
  | f :: fs => if f.1 == key then (key, v) :: fs else f :: setField key v fs

/-- Adds a field under a dotted key.  The tables on the way are made, or are such as other dotted
keys have made. -/
def addDotted? : List String → Toml → List (String × Toml) → Option (List (String × Toml))
  | [], _, _ => none
  | [key], v, fields => addField? fields key v
  | key :: more, v, fields =>
    match (fields.find? fun f => f.1 == key).map (·.2) with
    | none => (addDotted? more v []).map fun inner => fields ++ [(key, .table inner true)]
    | some (.table inner true) =>
      (addDotted? more v inner).map fun inner => setField key (.table inner true) fields
    | some _ => none

/-- What is being read inside brackets. -/
inductive Part where
  /-- a value -/
  | value
  /-- the rest of a list, with the items so far, the latest first -/
  | items (found : List Toml)
  /-- the rest of an inline table from a field on, with the fields so far -/
  | fields (found : List (String × Toml))

/-- Reads a value, or the rest of a list or of an inline table; the first number bounds the steps
and the second says how many more brackets may be opened. -/
def part? : Nat → Nat → Part → List Char → Option (Toml × List Char)
  | 0, _, _, _ => none
  | n + 1, depth, .value, cs =>
    match depth, cs with
    | 0, '[' :: _ => none
    | 0, '\x7b' :: _ => none
    | depth + 1, '[' :: rest => part? n depth (.items []) rest
    | depth + 1, '\x7b' :: rest =>
      match skipGap rest with
      | '\x7d' :: rest => some (.table [] false, rest)
      | rest => part? n depth (.fields []) rest
    | _, cs =>
      match string? cs with
      | some (s, rest) => some (.string s, rest)
      | none => (scalar? cs).map fun rest => (.scalar, rest)
  | n + 1, depth, .items found, cs =>
    match skipLines (n + 1) cs with
    | ']' :: rest => some (.list found.reverse, rest)
    | cs =>
      match part? n depth .value cs with
      | none => none
      | some (v, rest) =>
        match skipLines (n + 1) rest with
        | ',' :: rest => part? n depth (.items (v :: found)) rest
        | ']' :: rest => some (.list (v :: found).reverse, rest)
        | _ => none
  | n + 1, depth, .fields found, cs =>
    match dottedKey? (depthLimit - 1) [] cs with
    | none => none
    | some (keys, rest) =>
      match part? n depth .value rest with
      | none => none
      | some (v, rest) =>
        match addDotted? keys v found, skipGap rest with
        | some found, ',' :: rest => part? n depth (.fields found) rest
        | some found, '\x7d' :: rest => some (.table found false, rest)
        | _, _ => none

/-- A value. -/
def value? (cs : List Char) : Option (Toml × List Char) :=
  part? (2 * cs.length + 2) (depthLimit - 1) .value cs

/-! ### Files -/

/-- The key between the double brackets of a header, after them. -/
def header? (cs : List Char) : Option (String × List Char) := do
  let (key, rest) ← key? (skipGap cs)
  match skipGap rest with
  | ']' :: ']' :: rest => some (key, rest)
  | _ => none

/-- Adds a field to the table that was opened last, or to the top level. -/
def addToFile? (f : TomlFile) (key : String) (v : Toml) : Option TomlFile :=
  match f.tables.reverse with
  | [] => (addField? f.fields key v).map fun fields => { f with fields }
  | (name, fields) :: before =>
    (addField? fields key v).map fun fields =>
      { f with tables := before.reverse ++ [(name, fields)] }

/-- Reads the rest of a file; the number bounds the lines. -/
def linesOf? : Nat → TomlFile → List Char → Option TomlFile
  | 0, _, _ => none
  | n + 1, f, cs =>
    match skipLines (n + 1) cs with
    | [] => some f
    | '[' :: '[' :: rest => do
      let (name, rest) ← header? rest
      if f.fields.any fun e => e.1 == name then none
      else linesOf? n { f with tables := f.tables ++ [(name, [])] } (← endOfLine? rest)
    | cs => do
      let (key, rest) ← keyAndEquals? cs
      let (v, rest) ← value? rest
      linesOf? n (← addToFile? f key v) (← endOfLine? rest)

/-- Reads a file. -/
def read? (text : String) : Option TomlFile :=
  let cs := text.toList
  let cs := if cs.head? = some '\ufeff' then cs.drop 1 else cs
  linesOf? (cs.length + 1) {} cs

end Toml

end Highlighting
