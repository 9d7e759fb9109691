import Highlighting.Proofs.Scan.Positions

/-!
# Lines of a token stream

`TokenStream.lines` cuts tokens at line feeds.  Before the line behind a final line feed is dropped,
the texts of the lines are the source split at its line feeds (`map_textOf_allLines`), because
both sides take an append to the lists of lines glued together where they meet.  `isCutInto_lines`
says what is left after that: non-empty pieces without line feeds, in the order of the tokens, which
make the source up to one final line feed.
-/

namespace Highlighting

namespace TokenStream

variable {α β : Type}

/-! ### Lists of lines, glued -/

/-- Lines behind lines: the last of the former and the first of the latter become one. -/
def glued : List (List α) → List (List α) → List (List α)
  | [], rows => rows
  | [row], [] => [row]
  | [row], row' :: rows => (row ++ row') :: rows
  | row :: row' :: rows, rows' => row :: glued (row' :: rows) rows'

theorem glued_concat_cons (front : List (List α)) (row row' : List α) (back : List (List α)) :
    glued (front ++ [row]) (row' :: back) = front ++ (row ++ row') :: back := by
  induction front with
  | nil => rfl
  | cons first front ih =>
    cases front with
    | nil => rfl
    | cons second front => exact congrArg (first :: ·) ih

/-- A list of lines is not empty, so that it has a last line. -/
theorem exists_concat {rows : List (List α)} (h : rows ≠ []) : ∃ front row, rows = front ++ [row] :=
  ⟨rows.dropLast, rows.getLast h, (List.dropLast_append_getLast h).symm⟩

theorem glued_ne_nil {rows rows' : List (List α)} (h : rows ≠ []) : glued rows rows' ≠ [] := by
  obtain ⟨front, row, rfl⟩ := exists_concat h
  cases rows' with
  | nil => cases front with
    | nil => exact List.cons_ne_nil _ _
    | cons first front => cases front <;> exact List.cons_ne_nil _ _
  | cons row' back => simp [glued_concat_cons]

theorem glued_assoc {rows rows' rows'' : List (List α)} (h : rows ≠ []) (h' : rows' ≠ [])
    (h'' : rows'' ≠ []) : glued (glued rows rows') rows'' = glued rows (glued rows' rows'') := by
  obtain ⟨front, row, rfl⟩ := exists_concat h
  obtain ⟨row'', back, rfl⟩ := List.exists_cons_of_ne_nil h''
  obtain ⟨middle, last, rfl⟩ := exists_concat h'
  cases middle with
  | nil =>
    rw [List.nil_append, glued_concat_cons, glued_concat_cons, ← List.nil_append [last],
      glued_concat_cons, List.nil_append, glued_concat_cons, List.append_assoc]
  | cons row' middle =>
    have hassoc : front ++ (row ++ row') :: (middle ++ [last]) =
        (front ++ (row ++ row') :: middle) ++ [last] := by simp
    rw [List.cons_append, glued_concat_cons, hassoc, glued_concat_cons, ← List.cons_append,
      glued_concat_cons, List.cons_append, glued_concat_cons, List.append_assoc, List.cons_append]

/-- A function of lines that keeps appends keeps lines that are glued. -/
theorem map_glued {f : List α → List β} (hf : ∀ row row', f (row ++ row') = f row ++ f row')
    {rows rows' : List (List α)} (h : rows ≠ []) (h' : rows' ≠ []) :
    (glued rows rows').map f = glued (rows.map f) (rows'.map f) := by
  obtain ⟨front, row, rfl⟩ := exists_concat h
  obtain ⟨row', back, rfl⟩ := List.exists_cons_of_ne_nil h'
  rw [glued_concat_cons, List.map_append, List.map_append, List.map_cons, List.map_cons, hf]
  exact (glued_concat_cons _ _ _ _).symm

theorem flatten_glued {rows rows' : List (List α)} (h : rows ≠ []) (h' : rows' ≠ []) :
    (glued rows rows').flatten = rows.flatten ++ rows'.flatten := by
  obtain ⟨front, row, rfl⟩ := exists_concat h
  obtain ⟨row', back, rfl⟩ := List.exists_cons_of_ne_nil h'
  simp [glued_concat_cons]

theorem splitOn_append [BEq α] (a : α) (xs ys : List α) :
    (xs ++ ys).splitOn a = glued (xs.splitOn a) (ys.splitOn a) := by
  induction xs with
  | nil =>
    obtain ⟨part, parts, hparts⟩ := List.exists_cons_of_ne_nil (List.splitOn_ne_nil a ys)
    rw [List.nil_append, List.splitOn_nil, hparts]
    rfl
  | cons x xs ih =>
    obtain ⟨part, parts, hparts⟩ := List.exists_cons_of_ne_nil (List.splitOn_ne_nil a xs)
    obtain ⟨part', parts', hparts'⟩ := List.exists_cons_of_ne_nil (List.splitOn_ne_nil a ys)
    rw [List.cons_append, List.splitOn_cons_eq_if_modifyHead, List.splitOn_cons_eq_if_modifyHead,
      ih, hparts, hparts']
    by_cases hx : (x == a) = true
    · rw [if_pos hx, if_pos hx]
      rfl
    · rw [if_neg hx, if_neg hx]
      cases parts <;> rfl

theorem not_mem_of_mem_splitOn {cs part : List Char} (h : part ∈ cs.splitOn '\n') :
    '\n' ∉ part := by
  induction cs generalizing part with
  | nil => simp [List.mem_singleton.1 h]
  | cons c cs ih =>
    rw [List.splitOn_cons_eq_if_modifyHead] at h
    obtain ⟨first, parts, hparts⟩ := List.exists_cons_of_ne_nil (List.splitOn_ne_nil '\n' cs)
    rw [hparts] at h ih
    split at h
    · rcases List.mem_cons.1 h with rfl | h
      · exact List.not_mem_nil
      · exact ih h
    · next hc =>
      rcases List.mem_cons.1 h with rfl | h
      · rw [List.mem_cons, not_or]
        exact ⟨fun heq => hc (beq_iff_eq.2 heq.symm), ih List.mem_cons_self⟩
      · exact ih (List.mem_cons_of_mem _ h)

/-! ### All lines -/

theorem splitLines_eq (cs : List Char) : splitLines cs = cs.splitOn '\n' := by
  induction cs with
  | nil => rfl
  | cons c cs ih =>
    obtain ⟨part, parts, hparts⟩ := List.exists_cons_of_ne_nil (List.splitOn_ne_nil '\n' cs)
    rw [splitLines, List.foldr_cons, ← splitLines, ih, List.splitOn_cons_eq_if_modifyHead, hparts]
    simp

/-- The lines of one token, the last of which is still open. -/
def tokenRows (t : Token) : List Line :=
  (t.text.toList.splitOn '\n').map fun part => addPiece t.category part []

/-- The lines of a stream, with the empty one after a final line feed. -/
def allLines (ts : TokenStream) : List Line := ts.foldr (fun t rest => glued (tokenRows t) rest) [[]]

theorem tokenRows_ne_nil (t : Token) : tokenRows t ≠ [] := by
  simp [tokenRows, List.splitOn_ne_nil]

theorem allLines_cons (t : Token) (ts : TokenStream) :
    allLines (t :: ts) = glued (tokenRows t) (allLines ts) := rfl

theorem allLines_ne_nil (ts : TokenStream) : allLines ts ≠ [] := by
  cases ts with
  | nil => exact List.cons_ne_nil _ _
  | cons t ts => exact glued_ne_nil (tokenRows_ne_nil t)

theorem allLines_append (ts us : TokenStream) :
    allLines (ts ++ us) = glued (allLines ts) (allLines us) := by
  induction ts with
  | nil =>
    obtain ⟨row, rows, hrows⟩ := List.exists_cons_of_ne_nil (allLines_ne_nil us)
    rw [List.nil_append, hrows]
    rfl
  | cons t ts ih =>
    rw [List.cons_append, allLines_cons, allLines_cons, ih,
      glued_assoc (tokenRows_ne_nil t) (allLines_ne_nil ts) (allLines_ne_nil us)]

theorem addParts_eq_glued (category : Category) {parts : List (List Char)} (h : parts ≠ [])
    {rows : List Line} (h' : rows ≠ []) :
    addParts category parts rows = glued (parts.map fun part => addPiece category part []) rows := by
  induction parts with
  | nil => exact absurd rfl h
  | cons part parts ih =>
    obtain ⟨row, rows, rfl⟩ := List.exists_cons_of_ne_nil h'
    cases parts with
    | nil =>
      rw [addParts, List.map_singleton, glued, addPiece, addPiece]
      split <;> rfl
    | cons part' parts =>
      rw [addParts, ih (List.cons_ne_nil _ _)]
      · rfl
      · simp

theorem foldr_addParts (ts : TokenStream) :
    ts.foldr (fun t rest => addParts t.category (splitLines t.text.toList) rest) [[]] =
      allLines ts := by
  induction ts with
  | nil => rfl
  | cons t ts ih =>
    rw [List.foldr_cons, ih, splitLines_eq,
      addParts_eq_glued t.category (List.splitOn_ne_nil _ _) (allLines_ne_nil ts)]
    rfl

theorem textOf_append (row row' : Line) : textOf (row ++ row') = textOf row ++ textOf row' :=
  List.flatMap_append

theorem textOf_addPiece (category : Category) (part : List Char) :
    textOf (addPiece category part []) = part := by
  cases part with
  | nil => rfl
  | cons c cs => simp [addPiece, textOf]

theorem map_textOf_tokenRows (t : Token) :
    (tokenRows t).map textOf = t.text.toList.splitOn '\n' := by
  rw [tokenRows, List.map_map]
  exact List.map_id'' (textOf_addPiece t.category) _

theorem sourceText_cons (t : Token) (ts : TokenStream) :
    sourceText (t :: ts) = t.text ++ ts.sourceText := by
  rw [sourceText, List.map_cons, String.join_cons, ← sourceText]

/-- The texts of all lines are the source split at its line feeds. -/
theorem map_textOf_allLines (ts : TokenStream) :
    (allLines ts).map textOf = ts.sourceText.toList.splitOn '\n' := by
  induction ts with
  | nil => rfl
  | cons t ts ih =>
    rw [allLines_cons, map_glued textOf_append (tokenRows_ne_nil t) (allLines_ne_nil ts), ih,
      map_textOf_tokenRows, sourceText_cons, String.toList_append, splitOn_append]

/-- The pieces of a token: the parts of its text between line feeds that are not empty. -/
def tokenPieces (t : Token) : Line :=
  ((t.text.toList.splitOn '\n').filter (· ≠ [])).map fun part => (t.category, String.ofList part)

theorem flatten_tokenRows (t : Token) : (tokenRows t).flatten = tokenPieces t := by
  rw [tokenRows, tokenPieces]
  induction t.text.toList.splitOn '\n' with
  | nil => rfl
  | cons part parts ih =>
    rw [List.map_cons, List.flatten_cons, ih]
    cases part <;> simp [addPiece]

theorem flatten_allLines (ts : TokenStream) : (allLines ts).flatten = ts.flatMap tokenPieces := by
  induction ts with
  | nil => rfl
  | cons t ts ih =>
    rw [allLines_cons, flatten_glued (tokenRows_ne_nil t) (allLines_ne_nil ts), ih,
      flatten_tokenRows, List.flatMap_cons]

theorem of_mem_tokenPieces {t : Token} {piece : Category × String} (h : piece ∈ tokenPieces t) :
    piece.2 ≠ "" ∧ '\n' ∉ piece.2.toList := by
  obtain ⟨part, hpart, rfl⟩ := List.mem_map.1 h
  obtain ⟨hsplit, hne⟩ := List.mem_filter.1 hpart
  refine ⟨fun hempty => of_decide_eq_true hne ?_, ?_⟩
  · exact String.ofList_injective (hempty.trans String.ofList_nil.symm)
  · rw [String.toList_ofList]
    exact not_mem_of_mem_splitOn hsplit

/-! ### The lines of a stream -/

/-- A text without its last line feed, if it ends in one. -/
def withoutLastBreak (cs : List Char) : List Char :=
  if cs.getLast? = some '\n' then cs.dropLast else cs

/-- A text that ends in a line feed, which is added if it is not there. -/
def withLastBreak (cs : List Char) : List Char :=
  if cs.getLast? = some '\n' then cs else cs ++ ['\n']

/-- What the lines of a stream are. -/
structure IsCutInto (ts : TokenStream) (rows : List Line) : Prop where
  /-- a piece has a text, in which no line ends -/
  pieces : ∀ row ∈ rows, ∀ piece ∈ row, piece.2 ≠ "" ∧ '\n' ∉ piece.2.toList
  /-- the pieces are those of the tokens, in their order and with their categories -/
  order : rows.flatten = ts.flatMap tokenPieces
  /-- the lines, joined by line feeds, are the source up to a final line feed -/
  joined : ['\n'].intercalate (rows.map textOf) = withoutLastBreak ts.sourceText.toList

theorem endsWith_break (s : String) : s.endsWith "\n" = true ↔ s.toList.getLast? = some '\n' := by
  rw [String.endsWith_eq_endsWith_toSlice, String.Slice.endsWith_string_iff,
    List.getLast?_eq_some_iff, String.copy_toSlice]
  exact exists_congr fun front => eq_comm

/-- All lines are the lines, and an empty one if the source ends in a line feed. -/
theorem allLines_cases (ts : TokenStream) :
    ts.sourceText.toList.getLast? = some '\n' ∧ allLines ts = ts.lines ++ [[]] ∨
      ts.sourceText.toList.getLast? ≠ some '\n' ∧ allLines ts = ts.lines := by
  have hlines : ts.lines = if ts.sourceText.endsWith "\n" then (allLines ts).dropLast
      else allLines ts := by
    rw [lines, foldr_addParts]
  rw [hlines]
  by_cases hend : ts.sourceText.toList.getLast? = some '\n'
  · refine .inl ⟨hend, ?_⟩
    rw [if_pos ((endsWith_break _).2 hend)]
    obtain ⟨s, hs⟩ := List.getLast?_eq_some_iff.1 hend
    obtain ⟨front, row, hrows⟩ := exists_concat (allLines_ne_nil ts)
    have htexts := map_textOf_allLines ts
    rw [hs, List.splitOn_append_cons_self, hrows, List.map_append] at htexts
    have hempty : textOf row = [] := by simpa using (List.append_inj_right' htexts rfl)
    have hpiece : row = [] := by
      cases row with
      | nil => rfl
      | cons piece row =>
        have hmem : piece ∈ ts.flatMap tokenPieces := by
          rw [← flatten_allLines, hrows]
          simp
        obtain ⟨t, -, ht⟩ := List.mem_flatMap.1 hmem
        have hne := (of_mem_tokenPieces ht).1
        simp_all [textOf]
    rw [hrows, hpiece, List.dropLast_concat]
  · refine .inr ⟨hend, ?_⟩
    rw [if_neg (mt (endsWith_break _).1 hend)]

theorem map_textOf_lines (ts : TokenStream) :
    ts.lines.map textOf = (withoutLastBreak ts.sourceText.toList).splitOn '\n' := by
  have htexts := map_textOf_allLines ts
  rcases allLines_cases ts with ⟨hend, hall⟩ | ⟨hend, hall⟩
  · obtain ⟨s, hs⟩ := List.getLast?_eq_some_iff.1 hend
    rw [hall, hs, List.splitOn_append_cons_self, List.map_append] at htexts
    rw [withoutLastBreak, if_pos hend, hs, List.dropLast_concat]
    exact List.append_inj_left' htexts rfl
  · rw [withoutLastBreak, if_neg hend, ← htexts, hall]

theorem lines_ne_nil (ts : TokenStream) : ts.lines ≠ [] := by
  intro h
  have htexts := map_textOf_lines ts
  rw [h] at htexts
  exact List.splitOn_ne_nil _ _ htexts.symm

theorem flatten_lines (ts : TokenStream) : ts.lines.flatten = ts.flatMap tokenPieces := by
  rw [← flatten_allLines]
  rcases allLines_cases ts with ⟨-, hall⟩ | ⟨-, hall⟩
  · simp [hall]
  · rw [hall]

/-- The lines of a stream are its tokens cut at line feeds. -/
theorem isCutInto_lines (ts : TokenStream) : ts.IsCutInto ts.lines := by
  refine ⟨fun row hrow piece hpiece => ?_, flatten_lines ts, ?_⟩
  · have hmem : piece ∈ ts.flatMap tokenPieces := by
      rw [← flatten_lines]
      exact List.mem_flatten.2 ⟨row, hrow, hpiece⟩
    obtain ⟨t, -, ht⟩ := List.mem_flatMap.1 hmem
    exact of_mem_tokenPieces ht
  · rw [map_textOf_lines, List.intercalate_splitOn]

end TokenStream

end Highlighting
