import Highlighting.Proofs.Render.Lines
import Highlighting.Proofs.Render.Reading

/-!
# Tables of numbered lines

What `Html.read` meets in two texts of markup one behind the other is what it meets in the first and
then what it meets in the second (`read_append`), so that a table is read cell by cell.  The marks of
the code cell are those of tokens again: the pieces of the lines, with a bare line feed behind each
line.  `lines_numbered` puts this beside what `TokenStream.lines` yields: one number for each row, no
element across rows, and the source in the code cell.
-/

namespace Highlighting

namespace Html

open TokenStream

/-! ### Markup behind markup -/

theorem readFrom_append {place : Place} {cs : List Char} {ms : List Mark}
    (h : readFrom place cs = some ms) (rest : List Char) :
    readFrom place (cs ++ rest) = (readFrom .text rest).map (ms ++ ·) := by
  induction cs generalizing place ms with
  | nil =>
    cases place with
    | text =>
      cases h
      simp
    | entity taken => cases h
    | tag taken => cases h
  | cons c cs ih =>
    cases place with
    | text =>
      rw [List.cons_append, readFrom]
      rw [readFrom] at h
      split at h
      · next hc => rw [if_pos hc, ih h]
      · next hc =>
        rw [if_neg hc]
        split at h
        · next hamp => rw [if_pos hamp, ih h]
        · next hamp =>
          rw [if_neg hamp]
          split at h
          · cases h
          · next hmarkup =>
            obtain ⟨ns, hns, rfl⟩ := Option.map_eq_some_iff.1 h
            rw [if_neg hmarkup, ih hns, Option.map_map]
            rfl
    | entity taken =>
      rw [List.cons_append, readFrom]
      rw [readFrom] at h
      split at h
      · next hc =>
        obtain ⟨d, hd, h⟩ := Option.bind_eq_some_iff.1 h
        obtain ⟨ns, hns, rfl⟩ := Option.map_eq_some_iff.1 h
        rw [if_pos hc, hd, Option.bind_some, ih hns, Option.map_map]
        rfl
      · next hc => rw [if_neg hc, ih h]
    | tag taken =>
      rw [List.cons_append, readFrom]
      rw [readFrom] at h
      split at h
      · next hc =>
        obtain ⟨ns, hns, rfl⟩ := Option.map_eq_some_iff.1 h
        rw [if_pos hc, ih hns, Option.map_map]
        rfl
      · next hc => rw [if_neg hc, ih h]

theorem read_append {s t : String} {ms ns : List Mark} (hs : read s = some ms)
    (ht : read t = some ns) : read (s ++ t) = some (ms ++ ns) := by
  rw [read, String.toList_append, readFrom_append hs, ← read, ht, Option.map_some]

theorem read_join {α : Type} {f : α → String} {g : α → List Mark} {as : List α}
    (h : ∀ a ∈ as, read (f a) = some (g a)) :
    read (String.join (as.map f)) = some (as.flatMap g) := by
  induction as with
  | nil => rfl
  | cons a as ih =>
    rw [List.map_cons, String.join_cons, List.flatMap_cons]
    exact read_append (h a List.mem_cons_self) (ih fun b hb => h b (List.mem_cons_of_mem a hb))

theorem read_piece (category : Category) (text : String) :
    read (piece category text) = some (pieceMarks category text) := by
  have h := readFrom_piece category text []
  rwa [List.append_nil, readFrom, Option.map_some, List.append_nil] at h

/-- A text without a character that is escaped is read as it stands. -/
theorem read_plain {s : String} (h : ∀ c ∈ s.toList, escapeHtmlChar c = [c]) :
    read s = some (s.toList.map .char) := by
  have hescape : escapeHtml s = s := by
    rw [escapeHtml, List.flatMap_congr h, List.flatMap_singleton', String.ofList_toList]
  have hread := readFrom_escapeHtml s []
  rwa [hescape, List.append_nil, readFrom, Option.map_some, List.append_nil] at hread

theorem read_wrapped {body : String} {ms : List Mark} (h : read body = some ms)
    (cssClass : String) :
    read ("<div class=\"" ++ escapeHtml cssClass ++ "\"><pre class=\"" ++ escapeHtml cssClass ++
        "\"><code>" ++ body ++ "</code></pre></div>") =
      some (wrappedMarks true cssClass ms) := by
  have hopen : read ("<div class=\"" ++ escapeHtml cssClass ++ "\"><pre class=\"" ++
      escapeHtml cssClass ++ "\"><code>") =
        some [.tag (classTag "div" cssClass), .tag (classTag "pre" cssClass),
          .tag "code".toList] := by
    have hlist : ("<div class=\"" ++ escapeHtml cssClass ++ "\"><pre class=\"" ++
        escapeHtml cssClass ++ "\"><code>").toList = '<' :: (classTag "div" cssClass ++ '>' ::
          '<' :: (classTag "pre" cssClass ++ '>' :: '<' :: ("code".toList ++ '>' :: []))) := by
      simp [classTag]
    have hcode : '>' ∉ "code".toList := by decide
    rw [read, hlist, readFrom_tag (not_mem_classTag (by decide) cssClass),
      readFrom_tag (not_mem_classTag (by decide) cssClass), readFrom_tag hcode]
    rfl
  have hclose : read "</code></pre></div>" =
      some [.tag "/code".toList, .tag "/pre".toList, .tag "/div".toList] := by
    decide
  exact read_append (read_append hopen h) hclose

/-! ### The marks of a table -/

/-- The numbers of lines from 1, each on a line of its own. -/
def numbers (count : Nat) : List Char :=
  (List.range count).flatMap fun i => (toString (i + 1)).toList ++ ['\n']

/-- The tags before the numbers. -/
def tableStart : List Mark :=
  [.tag "table class=\"rouge-table\"".toList, .tag "tbody".toList, .tag "tr".toList,
    .tag "td class=\"rouge-gutter gl\"".toList, .tag "pre class=\"lineno\"".toList]

/-- The tags between the numbers and the code. -/
def tableMiddle : List Mark :=
  [.tag "/pre".toList, .tag "/td".toList, .tag "td class=\"rouge-code\"".toList, .tag "pre".toList]

/-- The tags behind the code. -/
def tableEnd : List Mark :=
  [.tag "/pre".toList, .tag "/td".toList, .tag "/tr".toList, .tag "/tbody".toList,
    .tag "/table".toList]

/-- The marks of a table of two cells: numbers, and code. -/
def tableMarks (gutter : List Char) (code : List Mark) : List Mark :=
  tableStart ++ gutter.map .char ++ tableMiddle ++ code ++ tableEnd

/-- The pieces of lines, with a bare line feed behind each line. -/
def rowPieces (rows : List Line) : List (Category × String) :=
  rows.flatMap fun row => row ++ [(.text, "\n")]

/-- The marks of pieces. -/
def marksOf (pieces : List (Category × String)) : List Mark :=
  pieces.flatMap fun piece => pieceMarks piece.1 piece.2

theorem marksOf_append (ps qs : List (Category × String)) :
    marksOf (ps ++ qs) = marksOf ps ++ marksOf qs := List.flatMap_append

theorem escapeHtmlChar_of_isDigit {c : Char} (h : c.isDigit = true) : escapeHtmlChar c = [c] := by
  unfold escapeHtmlChar
  split <;> first | rfl | cases h

theorem read_gutter (count : Nat) : read (gutter count) = some ((numbers count).map .char) := by
  have hline : ∀ i ∈ List.range count, read (toString (i + 1) ++ "\n") =
      some (((toString (i + 1)).toList ++ ['\n']).map .char) := by
    intro i _
    have hplain : ∀ c ∈ (toString (i + 1) ++ "\n").toList, escapeHtmlChar c = [c] := by
      intro c hc
      rw [String.toList_append, List.mem_append] at hc
      rcases hc with hc | hc
      · exact escapeHtmlChar_of_isDigit
          (Nat.isDigit_of_mem_toDigits (by decide) (by decide) (Nat.toList_repr ▸ hc))
      · rw [List.mem_singleton.1 hc]
        rfl
    rw [read_plain hplain, String.toList_append]
    rfl
  rw [gutter, read_join hline, numbers, List.map_flatMap]

theorem read_row (row : Line) : read (Html.row row) = some (marksOf (row ++ [(.text, "\n")])) := by
  have hbreak : read "\n" = some (marksOf [(.text, "\n")]) := by decide
  rw [Html.row, marksOf_append]
  refine read_append (read_join fun piece _ => ?_) hbreak
  exact read_piece piece.1 piece.2

/-- A table is read as its two cells. -/
theorem read_table (ts : TokenStream) :
    read (table ts) = some (tableMarks (numbers ts.lines.length) (marksOf (rowPieces ts.lines))) := by
  have hcode : read (String.join (ts.lines.map Html.row)) =
      some (marksOf (rowPieces ts.lines)) := by
    rw [read_join fun row _ => read_row row, marksOf, rowPieces, List.flatMap_assoc]
    rfl
  have hstart : read ("<table class=\"rouge-table\"><tbody><tr><td class=\"rouge-gutter gl\">" ++
      "<pre class=\"lineno\">") = some tableStart := by
    decide +kernel
  have hmiddle : read "</pre></td><td class=\"rouge-code\"><pre>" = some tableMiddle := by
    decide +kernel
  have hend : read "</pre></td></tr></tbody></table>" = some tableEnd := by decide +kernel
  exact read_append (read_append (read_append (read_append hstart (read_gutter _)) hmiddle) hcode)
    hend

theorem read_render_table (wrap : Bool) (cssClass : String) (ts : TokenStream) :
    read (render ⟨wrap, true, cssClass⟩ ts) =
      some (wrappedMarks wrap cssClass
        (tableMarks (numbers ts.lines.length) (marksOf (rowPieces ts.lines)))) := by
  cases wrap with
  | false => exact read_table ts
  | true => exact read_wrapped (read_table ts) cssClass

/-! ### The code cell -/

/-- The character that a mark stands for, if it is one. -/
def Mark.char? : Mark → Option Char
  | .tag _ => none
  | .char c => some c

/-- What is left of marks without the tags. -/
def bareText (ms : List Mark) : List Char := ms.filterMap Mark.char?

theorem bareText_append (ms ns : List Mark) : bareText (ms ++ ns) = bareText ms ++ bareText ns :=
  List.filterMap_append

theorem bareText_cons_tag (content : List Char) (ms : List Mark) :
    bareText (.tag content :: ms) = bareText ms := rfl

theorem bareText_map_char (cs : List Char) : bareText (cs.map .char) = cs := by
  rw [bareText, List.filterMap_map]
  exact List.filterMap_some

theorem bareText_marksOf (pieces : List (Category × String)) :
    bareText (marksOf pieces) = textOf pieces := by
  induction pieces with
  | nil => rfl
  | cons piece pieces ih =>
    have hpiece : bareText (pieceMarks piece.1 piece.2) = piece.2.toList := by
      rw [pieceMarks]
      split
      · exact bareText_map_char _
      · rw [List.cons_append, bareText_cons_tag, bareText_append, bareText_map_char,
          bareText_cons_tag]
        exact List.append_nil _
    rw [marksOf, List.flatMap_cons, bareText_append, hpiece, ← marksOf, ih]
    rfl

/-- The code cell of a stream with lines. -/
structure IsCodeCell (ts : TokenStream) (count : Nat) (code : List Mark) : Prop where
  /-- a row ends in each line feed -/
  rows : (bareText code).count '\n' = count
  /-- without tags the cell is the source, which ends in a line feed -/
  text : bareText code = withLastBreak ts.sourceText.toList
  /-- bare text and elements, and no line ends in an element -/
  elements : ∃ pieces, piecesFrom none code = some pieces ∧
    ∀ piece ∈ pieces, piece.1.isPlain = false → '\n' ∉ piece.2.toList

theorem textOf_rowPieces (rows : List Line) :
    textOf (rowPieces rows) = rows.flatMap fun row => textOf row ++ ['\n'] := by
  rw [textOf, rowPieces, List.flatMap_assoc]
  exact List.flatMap_congr fun row _ => textOf_append row _

theorem flatMap_break (parts : List (List Char)) (h : parts ≠ []) :
    parts.flatMap (· ++ ['\n']) = ['\n'].intercalate parts ++ ['\n'] := by
  induction parts with
  | nil => exact absurd rfl h
  | cons part parts ih =>
    cases parts with
    | nil => simp
    | cons part' parts =>
      rw [List.flatMap_cons, ih (List.cons_ne_nil _ _), List.intercalate_cons_cons]
      simp

theorem withoutLastBreak_append (cs : List Char) :
    withoutLastBreak cs ++ ['\n'] = withLastBreak cs := by
  unfold withoutLastBreak withLastBreak
  split
  · next h =>
    obtain ⟨front, rfl⟩ := List.getLast?_eq_some_iff.1 h
    rw [List.dropLast_concat]
  · rfl

theorem count_break_of_not_mem {rows : List (List Char)} (h : ∀ row ∈ rows, '\n' ∉ row) :
    (rows.flatMap (· ++ ['\n'])).count '\n' = rows.length := by
  induction rows with
  | nil => rfl
  | cons row rows ih =>
    have hrow := List.count_eq_zero_of_not_mem (h row List.mem_cons_self)
    rw [List.flatMap_cons, List.count_append, List.count_append, hrow,
      ih fun row' hrow' => h row' (List.mem_cons_of_mem row hrow'), List.length_cons]
    simp [Nat.add_comm]

theorem mem_settled {pieces : List (Category × String)} {piece : Category × String}
    (hmem : piece ∈ settled pieces) (h : piece.1.isPlain = false) : piece ∈ pieces := by
  have hjoin : ∀ {s : String} {ps : List (Category × String)}, piece ∈ joinText s ps →
      piece ∈ ps := by
    intro s ps hps
    unfold joinText at hps
    split at hps
    · rcases List.mem_cons.1 hps with rfl | hps
      · cases h
      · exact List.mem_cons_of_mem _ hps
    · split at hps
      · exact hps
      · rcases List.mem_cons.1 hps with rfl | hps
        · cases h
        · exact hps
  induction pieces with
  | nil => exact hmem
  | cons first pieces ih =>
    rw [settled] at hmem
    split at hmem
    · exact List.mem_cons_of_mem _ (ih (hjoin hmem))
    · rcases List.mem_cons.1 hmem with rfl | hmem
      · exact List.mem_cons_self
      · exact List.mem_cons_of_mem _ (ih hmem)

theorem piecesFrom_marksOf (pieces : List (Category × String)) :
    piecesFrom none (marksOf pieces) = some (settled pieces) := by
  have hmarks : ∀ p, tokenMarks (placed p pieces) = marksOf pieces := by
    induction pieces with
    | nil => exact fun p => rfl
    | cons piece pieces ih => exact fun p => congrArg (pieceMarks piece.1 piece.2 ++ ·) (ih _)
  have hpieces : ∀ p, (placed p pieces).map (fun t => (t.category, t.text)) = pieces := by
    clear hmarks
    induction pieces with
    | nil => exact fun p => rfl
    | cons piece pieces ih => exact fun p => congrArg (piece :: ·) (ih _)
  rw [← hmarks .start, piecesFrom_tokenMarks, hpieces]

theorem isCodeCell_lines (ts : TokenStream) :
    IsCodeCell ts ts.lines.length (marksOf (rowPieces ts.lines)) := by
  have hcut := isCutInto_lines ts
  have htext : bareText (marksOf (rowPieces ts.lines)) =
      (ts.lines.map textOf).flatMap (· ++ ['\n']) := by
    rw [bareText_marksOf, textOf_rowPieces, List.flatMap_map]
  refine ⟨?_, ?_, settled (rowPieces ts.lines), piecesFrom_marksOf _, fun piece hpiece hplain => ?_⟩
  · rw [htext, count_break_of_not_mem, List.length_map]
    intro row hrow
    rw [map_textOf_lines] at hrow
    exact not_mem_of_mem_splitOn hrow
  · have hne : ts.lines.map textOf ≠ [] := by simp [lines_ne_nil]
    rw [htext, flatMap_break _ hne, hcut.joined, withoutLastBreak_append]
  · obtain ⟨row, hrow, hmem⟩ := List.mem_flatMap.1 (mem_settled hpiece hplain)
    rcases List.mem_append.1 hmem with hmem | hmem
    · exact (hcut.pieces row hrow piece hmem).2
    · rw [List.mem_singleton.1 hmem] at hplain
      cases hplain

/-- The lines of a stream are its tokens cut at line feeds, and its table of numbered lines has a
number for each row and the source in its code cell, where no element crosses a line. -/
theorem lines_numbered (ts : TokenStream) :
    ts.IsCutInto ts.lines ∧ ∀ wrap cssClass, ∃ code,
      read (render ⟨wrap, true, cssClass⟩ ts) =
        some (wrappedMarks wrap cssClass (tableMarks (numbers ts.lines.length) code)) ∧
      IsCodeCell ts ts.lines.length code :=
  ⟨isCutInto_lines ts, fun wrap cssClass =>
    ⟨_, read_render_table wrap cssClass ts, isCodeCell_lines ts⟩⟩

end Html

end Highlighting
