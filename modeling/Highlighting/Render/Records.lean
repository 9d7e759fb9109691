import Highlighting.Json
import Highlighting.Token

/-!
# Token records

A stream of tokens as a list of records for other tools.
-/

namespace Highlighting

namespace Records

/-- The record of a token: its category by name and by class, its text, and where it begins. -/
def ofToken (t : Token) : Json :=
  .object [("category", .string t.category.qualifiedName),
    ("class", .string t.category.cssClass), ("text", .string t.text),
    ("line", .nat t.span.start.line), ("column", .nat t.span.start.column)]

/-- The records of a stream. -/
def ofStream (ts : TokenStream) : Json := .array (ts.map ofToken)

/-- The records in one line or with one item a line. -/
def render (isPretty : Bool) (ts : TokenStream) : String :=
  if isPretty then (ofStream ts).renderPretty else (ofStream ts).render

end Records

end Highlighting
