/-!
# Structured values

`Json` is a value made of texts, numbers, lists and named fields.  `Json.render` writes it in one
line and `Json.renderPretty` with one item a line; both escape the same characters, so that the
text between quotes never holds a quote, a backslash or a control character of its own.
-/

namespace Highlighting

/-- A structured value.  The fields of an object keep their order. -/
inductive Json where
  | null
  | bool (b : Bool)
  | int (n : Int)
  /-- a number with a fraction: its digits and the number of digits after the point -/
  | decimal (digits : Int) (places : Nat)
  | string (s : String)
  | array (items : List Json)
  | object (fields : List (String × Json))
deriving Inhabited

namespace Json

/-- A natural number. -/
def nat (n : Nat) : Json := .int n

/-- The last four hexadecimal digits of a number. -/
def hex4 (n : Nat) : List Char :=
  [n / 4096 % 16, n / 256 % 16, n / 16 % 16, n % 16].map Nat.digitChar

/-- A character between quotes. -/
def escapeChar (c : Char) : List Char :=
  match c with
  | '"' => ['\\', '"']
  | '\\' => ['\\', '\\']
  | '\n' => ['\\', 'n']
  | '\r' => ['\\', 'r']
  | '\t' => ['\\', 't']
  | '\x08' => ['\\', 'b']
  | '\x0c' => ['\\', 'f']
  | _ => if c.toNat < 0x20 then ['\\', 'u'] ++ hex4 c.toNat else [c]

/-- A text in quotes. -/
def quote (s : String) : String :=
  "\"" ++ String.ofList (s.toList.flatMap escapeChar) ++ "\""

/-- A number with a fraction. -/
def renderDecimal (digits : Int) (places : Nat) : String :=
  let body := (toString digits.natAbs).toList
  let padded := List.replicate (places + 1 - body.length) '0' ++ body
  let cut := padded.length - places
  (if digits < 0 then "-" else "") ++ String.ofList (padded.take cut) ++ "." ++
    String.ofList (padded.drop cut)

mutual

/-- The value in one line. -/
def render : Json → String
  | null => "null"
  | bool b => if b then "true" else "false"
  | int n => toString n
  | decimal digits places => renderDecimal digits places
  | string s => quote s
  | array items => "[" ++ ",".intercalate (renderItems items) ++ "]"
  | object fields => "\x7b" ++ ",".intercalate (renderFields fields) ++ "\x7d"

/-- The items of a list. -/
def renderItems : List Json → List String
  | [] => []
  | v :: vs => v.render :: renderItems vs

/-- The fields of an object. -/
def renderFields : List (String × Json) → List String
  | [] => []
  | (k, v) :: fs => (quote k ++ ":" ++ v.render) :: renderFields fs

end

/-- Two blanks for each level. -/
def indent (level : Nat) : String := String.ofList (List.replicate (2 * level) ' ')

/-- Lines between brackets, each further in than the brackets. -/
def bracketed (first last : String) (level : Nat) (lines : List String) : String :=
  if lines.isEmpty then first ++ last
  else
    first ++ "\n" ++
      ",\n".intercalate (lines.map fun l => indent (level + 1) ++ l) ++
      "\n" ++ indent level ++ last

mutual

/-- The value with one item a line, at a level of indentation. -/
def renderAt (level : Nat) : Json → String
  | array items => bracketed "[" "]" level (renderItemsAt (level + 1) items)
  | object fields => bracketed "\x7b" "\x7d" level (renderFieldsAt (level + 1) fields)
  | v => v.render

/-- The items of a list, at a level of indentation. -/
def renderItemsAt (level : Nat) : List Json → List String
  | [] => []
  | v :: vs => v.renderAt level :: renderItemsAt level vs

/-- The fields of an object, at a level of indentation. -/
def renderFieldsAt (level : Nat) : List (String × Json) → List String
  | [] => []
  | (k, v) :: fs => (quote k ++ ": " ++ v.renderAt level) :: renderFieldsAt level fs

end

/-- The value with one item a line. -/
def renderPretty (v : Json) : String := v.renderAt 0

/-! ### Reading values -/

/-- The value of a named field. -/
def field? (fields : List (String × Json)) (name : String) : Option Json :=
  (fields.find? fun f => f.1 == name).map (·.2)

/-- A natural number below a bound. -/
def natBelow? (bound : Nat) : Json → Option Nat
  | int (.ofNat n) => if n < bound then some n else none
  | _ => none

/-- A text. -/
def text? : Json → Option String
  | string s => some s
  | _ => none

/-- A truth value. -/
def bool? : Json → Option Bool
  | bool b => some b
  | _ => none

/-- The values of the named fields of a record, which may also be a list of just these values. -/
def record? (names : List String) : Json → Option (List Json)
  | object fields => names.mapM (field? fields)
  | array items => if items.length = names.length then some items else none
  | _ => none

end Json

end Highlighting
