import Highlighting.Json
import Highlighting.Token

/-!
# Token streams as structured values

`TokenStream.toJson` writes a stream in full, and `TokenStream.ofJson?` reads it back.  Reading is
more liberal than writing: records may have further fields or be lists of their fields in order,
and category names may be written in their short forms.
-/

namespace Highlighting

namespace Position

/-- The structured form. -/
def toJson (p : Position) : Json :=
  .object [("offset", .nat p.offset), ("line", .nat p.line), ("column", .nat p.column)]

/-- Reads a position; lines and columns have 32 bits and offsets 64. -/
def ofJson? (v : Json) : Option Position :=
  match v.record? ["offset", "line", "column"] with
  | some [offset, line, column] => do
    some ⟨← offset.natBelow? (.pow 2 64), ← line.natBelow? (.pow 2 32),
      ← column.natBelow? (.pow 2 32)⟩
  | _ => none

end Position

namespace Span

/-- The structured form. -/
def toJson (s : Span) : Json := .object [("start", s.start.toJson), ("end", s.stop.toJson)]

/-- Reads a span. -/
def ofJson? (v : Json) : Option Span :=
  match v.record? ["start", "end"] with
  | some [start, stop] => do some ⟨← Position.ofJson? start, ← Position.ofJson? stop⟩
  | _ => none

end Span

namespace Token

/-- The structured form. -/
def toJson (t : Token) : Json :=
  .object [("category", .string t.category.qualifiedName), ("text", .string t.text),
    ("span", t.span.toJson)]

/-- Reads a token. -/
def ofJson? (v : Json) : Option Token :=
  match v.record? ["category", "text", "span"] with
  | some [category, text, span] => do
    some ⟨← category.text?.bind Category.ofName?, ← text.text?, ← Span.ofJson? span⟩
  | _ => none

end Token

namespace TokenStream

/-- The structured form. -/
def toJson (ts : TokenStream) : Json := .array (ts.map Token.toJson)

/-- Reads a stream. -/
def ofJson? : Json → Option TokenStream
  | .array items => items.mapM Token.ofJson?
  | _ => none

end TokenStream

end Highlighting
