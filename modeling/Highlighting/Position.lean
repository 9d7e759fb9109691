import Highlighting.Text.Bytes

/-!
# Positions and spans

A position counts the bytes before it and has a line and a column, both from 1, the column in
characters.  Positions advance over text; a span is the stretch between two of them.
-/

namespace Highlighting

/-- A place in a source. -/
structure Position where
  /-- bytes before the place -/
  offset : Nat
  /-- line, from 1 -/
  line : Nat
  /-- column in characters, from 1 -/
  column : Nat
deriving DecidableEq, Inhabited

namespace Position

/-- The start of a source. -/
def start : Position := ⟨0, 1, 1⟩

/-- The place after a character. -/
def advance (p : Position) (c : Char) : Position :=
  if c = '\n' then ⟨p.offset + 1, p.line + 1, 1⟩
  else ⟨p.offset + c.utf8Size, p.line, p.column + 1⟩

/-- The place after a text. -/
def advanceText (p : Position) (cs : List Char) : Position := cs.foldl advance p

/-- Line and column. -/
def display (p : Position) : String := s!"{p.line}:{p.column}"

/-- The order by offset, then line, then column. -/
def isBefore (p q : Position) : Bool :=
  p.offset < q.offset ||
    p.offset == q.offset && (p.line < q.line || p.line == q.line && p.column < q.column)

@[simp] theorem advanceText_nil (p : Position) : p.advanceText [] = p := rfl

theorem advanceText_cons (p : Position) (c : Char) (cs : List Char) :
    p.advanceText (c :: cs) = (p.advance c).advanceText cs := rfl

theorem advanceText_append (p : Position) (cs ds : List Char) :
    p.advanceText (cs ++ ds) = (p.advanceText cs).advanceText ds := List.foldl_append

theorem offset_advance (p : Position) (c : Char) :
    (p.advance c).offset = p.offset + c.utf8Size := by
  by_cases h : c = '\n'
  · subst h; rfl
  · simp [advance, h]

theorem offset_advanceText (p : Position) (cs : List Char) :
    (p.advanceText cs).offset = p.offset + byteSize cs := by
  induction cs generalizing p with
  | nil => simp
  | cons c cs ih => rw [advanceText_cons, ih, offset_advance, byteSize_cons, Nat.add_assoc]

end Position

/-- A stretch of a source. -/
structure Span where
  start : Position
  stop : Position
deriving DecidableEq, Inhabited

namespace Span

/-- The span of a text that begins at a place. -/
def covering (p : Position) (cs : List Char) : Span := ⟨p, p.advanceText cs⟩

/-- The smallest span around two. -/
def merge (s t : Span) : Span :=
  ⟨if s.start.offset ≤ t.start.offset then s.start else t.start,
   if s.stop.offset ≥ t.stop.offset then s.stop else t.stop⟩

/-- The number of bytes. -/
def length (s : Span) : Nat := s.stop.offset - s.start.offset

/-- Whether the span has no bytes. -/
def isEmpty (s : Span) : Bool := s.start.offset == s.stop.offset

/-- The part of a source that the span covers. -/
def text (s : Span) (source : List Char) : List Char :=
  takeBytes s.length (dropBytes s.start.offset source)

/-- The line and the columns, or both ends when they are on different lines. -/
def display (s : Span) : String :=
  if s.start.line = s.stop.line then s!"{s.start.line}:{s.start.column}-{s.stop.column}"
  else s.start.display ++ "-" ++ s.stop.display

@[simp] theorem start_covering (p : Position) (cs : List Char) : (covering p cs).start = p := rfl

theorem length_covering (p : Position) (cs : List Char) :
    (covering p cs).length = byteSize cs := by
  simp [length, covering, Position.offset_advanceText]

/-- The span of a part of a source covers that part. -/
theorem text_covering (before cs after : List Char) :
    (covering (Position.start.advanceText before) cs).text (before ++ (cs ++ after)) = cs := by
  have h : (Position.start.advanceText before).offset = byteSize before := by
    simp [Position.offset_advanceText, Position.start]
  rw [text, length_covering, start_covering, h, (cutBytes_append before _).2,
    (cutBytes_append cs after).1]

end Span

end Highlighting
