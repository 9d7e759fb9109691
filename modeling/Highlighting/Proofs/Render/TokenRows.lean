import Mathlib.Data.List.Chain
import Mathlib.Data.List.Induction
import Highlighting.Proofs.Grammar.Expansion
import Highlighting.Proofs.Render.Lines

/-!
# Tokens in the rows of their lines

A token says by its line and column where it stands, counted character by character while the
source is scanned; `TokenStream.lines` puts its text into rows by cutting texts at line feeds.  The
two agree (`tokenize_placed_in_rows`): the part of a token behind `k` of its line feeds is in the row
`k` below its line, behind as many characters as its column says or else at the start of the row.

The lines of a stream are those of the tokens before a token, of the token and of the tokens behind
it, glued (`allLines_append`).  The number of the former and the length of the last of them are what
the position of the token counts (`exists_splitOn`).
-/

namespace Highlighting

theorem Position.After.unique {p q : Position} {before : List Char} (hp : p.After before)
    (hq : q.After before) : p = q := by
  have hoffset : p.offset = q.offset := hp.offset.trans hq.offset.symm
  have hline : p.line = q.line := hp.line.trans hq.line.symm
  have hcolumn : p.column = q.column := hp.column.trans hq.column.symm
  cases p
  simp_all

namespace TokenStream

/-- What a position counts of the text before it: the line feeds, which are as many as the lines
that are full, and the characters of the line that is open. -/
theorem exists_splitOn (before : List Char) :
    ∃ front row, before.splitOn '\n' = front ++ [row] ∧ before.count '\n' = front.length ∧
      (before.reverse.takeWhile (· != '\n')).length = row.length := by
  induction before using List.reverseRecOn with
  | nil => exact ⟨[], [], rfl, rfl, rfl⟩
  | append_singleton before c ih =>
    obtain ⟨front, row, hsplit, hcount, htail⟩ := ih
    rw [splitOn_append, hsplit]
    by_cases hc : c = '\n'
    · subst hc
      refine ⟨front ++ [row], [], ?_, by simp [hcount], by simp⟩
      have hbreak : ['\n'].splitOn '\n' = [[], []] := by decide
      rw [hbreak, glued_concat_cons]
      simp
    · refine ⟨front, row ++ [c], ?_, by simp [hc, hcount], by simp [hc, htail]⟩
      have hplain : [c].splitOn '\n' = [[c]] := List.splitOn_eq_singleton (by simp [Ne.symm hc])
      rw [hplain, glued_concat_cons]

/-! ### Where a token begins -/

theorem Cuts.stop_eq {ts : TokenStream} {source : String} (h : ts.Cuts source) {t : Token}
    (ht : t ∈ ts) : t.span.stop = t.span.start.advanceText t.text.toList := by
  obtain ⟨before, -, hstart, hstop⟩ := h.placed t ht
  exact hstop.unique (hstart.advanceText _)

theorem start_eq_advanceText {front back : TokenStream} {t : Token} {p : Position}
    (hhead : ∀ u, (front ++ t :: back).head? = some u → u.span.start = p)
    (hchain : (front ++ t :: back).IsChain fun u v => u.span.stop = v.span.start)
    (hstop : ∀ u ∈ front, u.span.stop = u.span.start.advanceText u.text.toList) :
    t.span.start = p.advanceText front.sourceText.toList := by
  induction front generalizing p with
  | nil => exact hhead t rfl
  | cons u front ih =>
    rw [sourceText_cons, String.toList_append, Position.advanceText_append, ← hhead u rfl,
      ← hstop u List.mem_cons_self]
    refine ih (fun v hv => ?_) (List.isChain_of_isChain_cons hchain) fun v hv =>
      hstop v (List.mem_cons_of_mem u hv)
    exact ((List.isChain_cons.1 hchain).1 v hv).symm

/-- A token begins behind the texts of the tokens before it. -/
theorem Cuts.start_after {front back : TokenStream} {t : Token} {source : String}
    (h : (front ++ t :: back).Cuts source) : t.span.start.After front.sourceText.toList := by
  have hstart := start_eq_advanceText h.first h.adjacent fun u hu =>
    h.stop_eq (List.mem_append_left _ hu)
  rw [hstart]
  exact Position.After.start.advanceText _

/-! ### The rows of glued lines -/

section Glued

variable {α : Type} {rows rows' : List (List α)} {row : List α} {k : Nat}

theorem getElem?_glued_left (h' : rows' ≠ []) (hk : rows[k]? = some row) :
    ∃ after, (glued rows rows')[k]? = some (row ++ after) := by
  have hne : rows ≠ [] := by
    rintro rfl
    cases hk
  obtain ⟨front, last, rfl⟩ := exists_concat hne
  obtain ⟨row', back, rfl⟩ := List.exists_cons_of_ne_nil h'
  rw [glued_concat_cons]
  by_cases hlt : k < front.length
  · rw [List.getElem?_append_left hlt] at hk ⊢
    exact ⟨[], by rw [hk, List.append_nil]⟩
  · obtain ⟨i, rfl⟩ := Nat.exists_eq_add_of_le (Nat.not_lt.1 hlt)
    rw [List.getElem?_append_right (Nat.le_add_right _ _), Nat.add_sub_cancel_left] at hk ⊢
    cases i with
    | zero =>
      cases hk
      exact ⟨row', rfl⟩
    | succ i => cases hk

/-- Behind lines, the first line goes on where these end, and the others are lines of their own. -/
theorem getElem?_glued_right {front : List (List α)} {last : List α} (hk : rows'[k]? = some row) :
    (glued (front ++ [last]) rows')[front.length + k]? =
      some ((if k = 0 then last else []) ++ row) := by
  cases rows' with
  | nil => cases hk
  | cons row' back =>
    rw [glued_concat_cons, List.getElem?_append_right (Nat.le_add_right _ _),
      Nat.add_sub_cancel_left]
    cases k with
    | zero =>
      cases hk
      rfl
    | succ k => exact hk

end Glued

/-- The row of a part of a token among all lines of a stream. -/
theorem exists_row {front back : TokenStream} {t : Token} {p : Position}
    (hp : p.After front.sourceText.toList) {k : Nat} {part : List Char}
    (hk : (t.text.toList.splitOn '\n')[k]? = some part) (hpart : part ≠ []) :
    ∃ before after, (allLines (front ++ t :: back))[p.line + k - 1]? =
        some (before ++ (t.category, String.ofList part) :: after) ∧
      (textOf before).length = if k = 0 then p.column - 1 else 0 := by
  have hrow : (tokenRows t)[k]? = some [(t.category, String.ofList part)] := by
    rw [tokenRows, List.getElem?_map, hk, Option.map_some]
    simp [addPiece, hpart]
  obtain ⟨after, hafter⟩ := getElem?_glued_left (allLines_ne_nil back) hrow
  obtain ⟨rows, last, hrows⟩ := exists_concat (allLines_ne_nil front)
  obtain ⟨parts, tail, hsplit, hcount, hcolumn⟩ := exists_splitOn front.sourceText.toList
  have htexts := map_textOf_allLines front
  rw [hrows, hsplit, List.map_append, List.map_singleton] at htexts
  have hlength : rows.length = parts.length := by
    rw [← List.length_map (textOf ·), List.append_inj_left' htexts rfl]
  have hlast : textOf last = tail := by simpa using List.append_inj_right' htexts rfl
  have hline : p.line + k - 1 = rows.length + k := by
    rw [hp.line, hcount, hlength]
    omega
  rw [allLines_append, allLines_cons, hrows, hline, getElem?_glued_right hafter]
  refine ⟨if k = 0 then last else [], after, rfl, ?_⟩
  split
  · rw [hlast, ← hcolumn, hp.column]
    omega
  · rfl

/-- The lines of a stream leave no row out that holds a piece. -/
theorem getElem?_lines {ts : TokenStream} {k : Nat} {row : Line} (h : (allLines ts)[k]? = some row)
    (hrow : row ≠ []) : ts.lines[k]? = some row := by
  rcases allLines_cases ts with ⟨-, hall⟩ | ⟨-, hall⟩
  · rw [hall, List.getElem?_append] at h
    split at h
    · exact h
    · have hmem := List.mem_of_getElem? h
      exact absurd (List.mem_singleton.1 hmem) hrow
  · rwa [hall] at h

end TokenStream

open TokenStream

/-- The positions of tokens and the lines of their stream agree: the part of a token behind `k` of
its line feeds is in the row `k` below the line that the token begins in, and there the pieces before
it have the characters before the column of the token, or none behind a line feed.  Lines and columns
stay below one more than the size of the source in bytes. -/
theorem tokenize_placed_in_rows (g : Grammar) (prefs : LexicalPreferences) (source : String)
    {t : Token} (ht : t ∈ (g.tokenize prefs source).value.tokens) {k : Nat} {part : List Char}
    (hk : (t.text.toList.splitOn '\n')[k]? = some part) (hpart : part ≠ []) :
    (∃ before after, (g.tokenize prefs source).value.tokens.lines[t.span.start.line + k - 1]? =
        some (before ++ (t.category, String.ofList part) :: after) ∧
      (textOf before).length = if k = 0 then t.span.start.column - 1 else 0) ∧
    t.span.start.line ≤ 1 + source.utf8ByteSize ∧ t.span.start.column ≤ 1 + source.utf8ByteSize := by
  have hcuts := tokenize_cuts g prefs source
  refine ⟨?_, hcuts.small t ht _ List.mem_cons_self⟩
  obtain ⟨front, back, htokens⟩ := List.append_of_mem ht
  rw [htokens] at hcuts ⊢
  obtain ⟨before, after, hrow, hlength⟩ := exists_row hcuts.start_after hk hpart
  exact ⟨before, after, getElem?_lines hrow (by simp), hlength⟩

/-- A token of two lines behind a digit: its first part is in the first row, behind the digit, and
its second part begins the second row. -/
theorem tokenize_placed_in_rows_words :
    let words : Definition := ⟨"words", [(rootState, [.rule (.token "[a-z\n]+" .comment)])]⟩
    ∃ g, words.build.value = .ok g ∧
      let rows := (g.tokenize {} "1ab\ncd").value.tokens.lines
      (∃ before after, rows[0]? = some (before ++ (.comment, "ab") :: after) ∧
        (textOf before).length = 1) ∧
      ∃ before after, rows[1]? = some (before ++ (.comment, "cd") :: after) ∧
        (textOf before).length = 0 := by
  intro words
  let token : Token := ⟨.comment, "ab\ncd", ⟨⟨1, 1, 2⟩, ⟨6, 2, 3⟩⟩⟩
  have hmem : words.build.value.toOption.any (fun g =>
      decide (token ∈ (g.tokenize {} "1ab\ncd").value.tokens)) = true := by
    decide +kernel
  obtain ⟨g, hg, hmem⟩ := (Option.any_eq_true _ _).1 hmem
  have ht := of_decide_eq_true hmem
  have hab : (token.text.toList.splitOn '\n')[0]? = some ['a', 'b'] := by decide
  have hcd : (token.text.toList.splitOn '\n')[1]? = some ['c', 'd'] := by decide
  have hfirst := (tokenize_placed_in_rows g {} "1ab\ncd" ht hab (by decide)).1
  have hsecond := (tokenize_placed_in_rows g {} "1ab\ncd" ht hcd (by decide)).1
  exact ⟨g, Except.eq_ok_of_toOption hg, hfirst, hsecond⟩

end Highlighting
