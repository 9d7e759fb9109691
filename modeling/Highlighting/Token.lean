import Highlighting.Category
import Highlighting.Position
import Highlighting.Text.Bytes
import Highlighting.Text.Quoted

/-!
# Tokens and token streams

A token is a piece of source text with its category and span.  A token stream lists tokens in
source order; `TokenStream.sourceText` puts the source together again, `TokenStream.mergeAdjacent`
joins neighbours of one category, and `TokenStream.lines` cuts the tokens at line feeds.
-/

namespace Highlighting

/-- A classified piece of source text. -/
structure Token where
  category : Category
  text : String
  span : Span
deriving DecidableEq, Inhabited

namespace Token

/-- Whether a token is plain text made of blanks. -/
def isBlank (t : Token) : Bool := t.category.isWithin .text && allBlank t.text

/-- The number of bytes of the text. -/
def length (t : Token) : Nat := t.text.utf8ByteSize

/-- Category, quoted text and place. -/
def display (t : Token) : String :=
  s!"{t.category.qualifiedName} {quoted t.text} @ {t.span.start.display}"

end Token

/-- Tokens in source order. -/
abbrev TokenStream := List Token

namespace TokenStream

/-- The stream of pieces that follow one another from a place. -/
def placed : Position → List (Category × String) → TokenStream
  | _, [] => []
  | p, (category, text) :: rest =>
    let span := Span.covering p text.toList
    ⟨category, text, span⟩ :: placed span.stop rest

/-- The texts of all tokens, joined. -/
def sourceText (ts : TokenStream) : String := String.join (ts.map Token.text)

/-- The tokens of exactly one category. -/
def withCategory (ts : TokenStream) (c : Category) : TokenStream :=
  ts.filter fun t => t.category == c

/-- The tokens at or below a category. -/
def within (ts : TokenStream) (c : Category) : TokenStream :=
  ts.filter fun t => t.category.isWithin c

/-- The category of the first token with a text. -/
def categoryOf? (ts : TokenStream) (text : String) : Option Category :=
  (ts.find? fun t => t.text == text).map Token.category

/-- The tokens that are not blank text. -/
def significant (ts : TokenStream) : TokenStream := ts.filter fun t => !t.isBlank

/-- How many tokens each category has, for the categories that have one, in listing order. -/
def counts (ts : TokenStream) : List (Category × Nat) :=
  (Category.all.map fun c => (c, ts.countP fun t => t.category == c)).filter fun e => e.2 != 0

/-- Puts a token in front of a stream whose first token it joins if both have one category. -/
def joinFront (t : Token) : TokenStream → TokenStream
  | [] => [t]
  | u :: us =>
    if t.category = u.category then ⟨t.category, t.text ++ u.text, t.span.merge u.span⟩ :: us
    else t :: u :: us

/-- The stream with each run of neighbours of one category joined. -/
def mergeAdjacent (ts : TokenStream) : TokenStream := ts.foldr joinFront []

/-! ### Lines -/

/-- A text cut at its line feeds, which are left out: one part more than there are line feeds. -/
def splitLines (cs : List Char) : List (List Char) :=
  cs.foldr (fun c parts =>
    match parts with
    | [] => [[c]]
    | part :: parts => if c = '\n' then [] :: part :: parts else (c :: part) :: parts) [[]]

/-- A line as pieces of tokens. -/
abbrev Line := List (Category × String)

/-- Puts a piece in front of a line unless it is empty. -/
def addPiece (category : Category) (piece : List Char) (line : Line) : Line :=
  if piece.isEmpty then line else (category, String.ofList piece) :: line

/-- Puts the parts of a token in front of the lines that follow it: the last part goes into the
first of these lines and each other part is a line of its own. -/
def addParts (category : Category) : List (List Char) → List Line → List Line
  | [], lines => lines
  | [part], line :: lines => addPiece category part line :: lines
  | part :: parts, lines => addPiece category part [] :: addParts category parts lines

/-- The lines of a stream, without the empty one after a final line feed. -/
def lines (ts : TokenStream) : List Line :=
  let all := ts.foldr (fun t rest => addParts t.category (splitLines t.text.toList) rest) [[]]
  if ts.sourceText.endsWith "\n" then all.dropLast else all

end TokenStream

end Highlighting
