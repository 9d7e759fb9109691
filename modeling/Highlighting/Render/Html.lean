import Highlighting.Settings.Render
import Highlighting.Token

/-!
# HTML

Tokens become `span` elements with the short class of their category, and plain text stays bare.
With line numbers the code is a table of two cells, the numbers and the code, in which no element
crosses a line.  Texts and class names are escaped, so that none of their characters is markup.
-/

namespace Highlighting

/-- A character in the content of an element or in an attribute. -/
def escapeHtmlChar (c : Char) : List Char :=
  match c with
  | '&' => ['&', 'a', 'm', 'p', ';']
  | '<' => ['&', 'l', 't', ';']
  | '>' => ['&', 'g', 't', ';']
  | '"' => ['&', 'q', 'u', 'o', 't', ';']
  | '\'' => ['&', '#', '3', '9', ';']
  | _ => [c]

/-- A text in the content of an element or in an attribute. -/
def escapeHtml (s : String) : String := String.ofList (s.toList.flatMap escapeHtmlChar)

namespace Html

/-- A piece of text of a category. -/
def piece (category : Category) (text : String) : String :=
  if category.isPlain then escapeHtml text
  else "<span class=\"" ++ category.cssClass ++ "\">" ++ escapeHtml text ++ "</span>"

/-- The tokens one after the other. -/
def spans (ts : TokenStream) : String :=
  String.join (ts.map fun t => piece t.category t.text)

/-- The numbers of lines, one a line. -/
def gutter (count : Nat) : String :=
  String.join ((List.range count).map fun i => toString (i + 1) ++ "\n")

/-- The pieces of a line and the line feed that ends it. -/
def row (line : TokenStream.Line) : String :=
  String.join (line.map fun (category, text) => piece category text) ++ "\n"

/-- The tokens in a table with numbered lines. -/
def table (ts : TokenStream) : String :=
  let lines := ts.lines
  "<table class=\"rouge-table\"><tbody><tr><td class=\"rouge-gutter gl\"><pre class=\"lineno\">" ++
    gutter lines.length ++ "</pre></td><td class=\"rouge-code\"><pre>" ++
    String.join (lines.map row) ++ "</pre></td></tr></tbody></table>"

/-- A stream of tokens as HTML. -/
def render (prefs : RenderPreferences) (ts : TokenStream) : String :=
  let body := if prefs.lineNumbers then table ts else spans ts
  if prefs.wrapOutput then
    let cssClass := escapeHtml prefs.cssClass
    "<div class=\"" ++ cssClass ++ "\"><pre class=\"" ++ cssClass ++ "\"><code>" ++ body ++
      "</code></pre></div>"
  else body

/-- The preferences for bare elements. -/
def inlinePreferences : RenderPreferences := { wrapOutput := false, lineNumbers := false }

end Html

end Highlighting
