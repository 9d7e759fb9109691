import Highlighting.Proofs.Scan.Tiling

/-!
# Token streams cut their source

`tokenize_cuts` is the main result on what a scan returns: for every grammar, source and
preferences, the tokens are pieces of the source that follow one another without a gap, and their
spans say where they stand.

Byte ranges that tile a text become pieces that are placed one after another from the position of
the text on (`resolvePositions_eq_placed`), and what a position says about the text before it is
kept by every character (`Position.After.advance`).
-/

namespace Highlighting

namespace Position

/-- A position is the one behind a text that begins at the start of a source. -/
structure After (p : Position) (before : List Char) : Prop where
  offset : p.offset = byteSize before
  line : p.line = 1 + before.count '\n'
  column : p.column = 1 + (before.reverse.takeWhile (· != '\n')).length

variable {p : Position} {before cs : List Char}

theorem After.start : start.After [] := ⟨rfl, rfl, rfl⟩

theorem After.advance (h : p.After before) (c : Char) : (p.advance c).After (before ++ [c]) := by
  obtain ⟨hoffset, hline, hcolumn⟩ := h
  refine ⟨by simp [offset_advance, hoffset], ?_, ?_⟩
  · by_cases hc : c = '\n'
    · simp [Position.advance, hc, hline, Nat.add_assoc]
    · simp [Position.advance, hc, hline]
  · by_cases hc : c = '\n'
    · simp [Position.advance, hc]
    · simp [Position.advance, hc, hcolumn, Nat.add_comm]

theorem After.advanceText (h : p.After before) (cs : List Char) :
    (p.advanceText cs).After (before ++ cs) := by
  induction cs generalizing p before with
  | nil => simpa using h
  | cons c cs ih => simpa [advanceText_cons] using ih (h.advance c)

/-- Lines and columns grow by one with a character at most. -/
theorem After.small (h : p.After before) :
    p.line ≤ 1 + byteSize before ∧ p.column ≤ 1 + byteSize before := by
  have hlen := length_le_byteSize before
  have hcount : before.count '\n' ≤ before.length := List.count_le_length
  have htail := (List.takeWhile_prefix (· != '\n') (l := before.reverse)).length_le
  rw [List.length_reverse] at htail
  rw [h.line, h.column]
  omega

end Position

namespace TokenStream

/-- The tokens of a stream are cut from a source one after another, and nothing is left out. -/
structure Cuts (ts : TokenStream) (source : String) : Prop where
  /-- no token is empty -/
  nonempty : ∀ t ∈ ts, t.text ≠ ""
  /-- the texts of the tokens make the source -/
  joined : ts.sourceText = source
  /-- the first token begins at the start of the source -/
  first : ∀ t, ts.head? = some t → t.span.start = .start
  /-- each token begins where the one before it ends -/
  adjacent : ts.IsChain fun t u => t.span.stop = u.span.start
  /-- the text of a token is what its span covers -/
  covered : ∀ t ∈ ts, t.span.text source.toList = t.text.toList
  /-- a token begins behind the text before it and ends behind its own -/
  placed : ∀ t ∈ ts, ∃ before, before ++ t.text.toList <+: source.toList ∧
    t.span.start.After before ∧ t.span.stop.After (before ++ t.text.toList)
  /-- lines and columns are at most one more than the bytes of the source -/
  small : ∀ t ∈ ts, ∀ p ∈ [t.span.start, t.span.stop],
    p.line ≤ 1 + source.utf8ByteSize ∧ p.column ≤ 1 + source.utf8ByteSize

/-! ### Pieces placed one after another -/

variable {p : Position} {pieces : List (Category × String)} {before after : List Char}

/-- The texts of pieces, joined. -/
def textOf (pieces : List (Category × String)) : List Char :=
  pieces.flatMap fun piece => piece.2.toList

theorem texts_placed (p : Position) (pieces : List (Category × String)) :
    (placed p pieces).map Token.text = pieces.map (·.2) := by
  induction pieces generalizing p with
  | nil => rfl
  | cons piece pieces ih => exact congrArg (piece.2 :: ·) (ih _)

theorem sourceText_placed (p : Position) (pieces : List (Category × String)) :
    (placed p pieces).sourceText = String.ofList (textOf pieces) := by
  rw [sourceText, texts_placed]
  induction pieces with
  | nil => rfl
  | cons piece pieces ih =>
    have htext : textOf (piece :: pieces) = piece.2.toList ++ textOf pieces := List.flatMap_cons
    rw [List.map_cons, String.join_cons, ih, htext, String.ofList_append, String.ofList_toList]

theorem head?_placed (p : Position) (pieces : List (Category × String)) :
    ∀ t, (placed p pieces).head? = some t → t.span.start = p := by
  cases pieces with
  | nil => simp [placed]
  | cons piece pieces => simp [placed, Span.covering]

theorem isChain_placed (p : Position) (pieces : List (Category × String)) :
    (placed p pieces).IsChain fun t u => t.span.stop = u.span.start := by
  induction pieces generalizing p with
  | nil => exact .nil
  | cons piece pieces ih =>
    cases pieces with
    | nil => exact .singleton _
    | cons piece' pieces => exact .cons_cons rfl (ih _)

/-- A piece is placed behind the text before it. -/
theorem mem_placed (hp : p.After before) {t : Token} (ht : t ∈ placed p pieces) :
    ∃ between after, textOf pieces = between ++ (t.text.toList ++ after) ∧
      t.span.start.After (before ++ between) ∧
      t.span.stop.After (before ++ between ++ t.text.toList) := by
  induction pieces generalizing p before with
  | nil => simp [placed] at ht
  | cons piece pieces ih =>
    have hstop := hp.advanceText piece.2.toList
    rcases List.mem_cons.1 ht with rfl | ht
    · refine ⟨[], textOf pieces, rfl, ?_, ?_⟩
      · rwa [List.append_nil]
      · rwa [List.append_nil]
    · obtain ⟨between, after, htext, hstart, hend⟩ := ih hstop ht
      refine ⟨piece.2.toList ++ between, after, ?_, ?_, ?_⟩
      · rw [textOf, List.flatMap_cons, List.append_assoc, ← htext, textOf]
      · rwa [← List.append_assoc]
      · rwa [← List.append_assoc]

/-- Where a token stands in the text that it is cut from. -/
theorem text_of_after {t : Token} (hstart : t.span.start.After before)
    (hstop : t.span.stop.After (before ++ t.text.toList)) :
    t.span.text (before ++ (t.text.toList ++ after)) = t.text.toList := by
  have hlength : t.span.length = byteSize t.text.toList := by
    rw [Span.length, hstop.offset, hstart.offset, byteSize_append]
    omega
  rw [Span.text, hlength, hstart.offset, (cutBytes_append before _).2, (cutBytes_append _ _).1]

theorem cuts_placed (hpieces : ∀ piece ∈ pieces, piece.2 ≠ "") :
    (placed .start pieces).Cuts (String.ofList (textOf pieces)) := by
  have hmem := fun t (ht : t ∈ placed .start pieces) => mem_placed Position.After.start ht
  refine ⟨fun t ht => ?_, sourceText_placed _ _, head?_placed _ _, isChain_placed _ _,
    fun t ht => ?_, fun t ht => ?_, fun t ht => ?_⟩
  · have htext : t.text ∈ pieces.map (·.2) := texts_placed .start pieces ▸ List.mem_map_of_mem ht
    obtain ⟨piece, hpiece, heq⟩ := List.mem_map.1 htext
    exact heq ▸ hpieces piece hpiece
  · obtain ⟨before, after, htext, hstart, hstop⟩ := hmem t ht
    rw [String.toList_ofList, htext]
    exact text_of_after hstart hstop
  · obtain ⟨before, after, htext, hstart, hstop⟩ := hmem t ht
    refine ⟨before, ⟨after, ?_⟩, hstart, hstop⟩
    rw [String.toList_ofList, htext, List.append_assoc]
  · obtain ⟨before, after, htext, hstart, hstop⟩ := hmem t ht
    have hsize : (String.ofList (textOf pieces)).utf8ByteSize =
        byteSize before + (byteSize t.text.toList + byteSize after) := by
      rw [utf8ByteSize_ofList, htext, byteSize_append, byteSize_append]
    have hstart' := hstart.small
    have hstop' := hstop.small
    simp only [List.nil_append, byteSize_append] at hstart' hstop'
    simp only [List.mem_cons, List.not_mem_nil, or_false]
    rintro p (rfl | rfl) <;> omega

end TokenStream

theorem resolvePositions_eq_placed {n : Nat} {cs : List Char} {ts : List RawToken}
    (h : Tiles n cs ts) (p : Position) :
    ∃ pieces, resolvePositions p n cs ts = TokenStream.placed p pieces ∧
      (∀ piece ∈ pieces, piece.2 ≠ "") ∧ TokenStream.textOf pieces = cs := by
  induction ts generalizing n cs p with
  | nil => exact ⟨[], rfl, by simp, (show cs = [] from h).symm⟩
  | cons t ts ih =>
    obtain ⟨u, v, rfl, hu, rfl, hstop, hts⟩ := h
    have hsize : t.stop - t.start = byteSize u := by omega
    have hahead : dropBytes (t.start - t.start) (u ++ v) = u ++ v := by
      rw [Nat.sub_self]
      exact (cutBytes_append [] (u ++ v)).2
    have hcut : cutBytes [] (byteSize u) (u ++ v) = (u, v) :=
      Prod.ext (cutBytes_append u v).1 (cutBytes_append u v).2
    obtain ⟨pieces, hpieces, hnonempty, htext⟩ := ih hts (p.advanceText u)
    refine ⟨(t.category, String.ofList u) :: pieces, ?_, ?_, ?_⟩
    · simp only [resolvePositions, hahead, hsize, hcut, TokenStream.placed, String.toList_ofList]
      exact congrArg _ hpieces
    · refine List.forall_mem_cons.2 ⟨fun hempty : String.ofList u = "" => hu ?_, hnonempty⟩
      exact String.ofList_injective (hempty.trans String.ofList_nil.symm)
    · rw [TokenStream.textOf, List.flatMap_cons, String.toList_ofList]
      exact congrArg (u ++ ·) htext

/-- The tokens of a source are cut from it, whatever the grammar and the preferences are. -/
theorem tokenize_cuts (g : Grammar) (prefs : LexicalPreferences) (source : String) :
    (g.tokenize prefs source).value.tokens.Cuts source := by
  have htiles := Scanner.run_tiles ⟨g, prefs.tokenLimit, prefs.logUnmatched⟩ source.toList
  have hraw : Tiles 0 source.toList
      (if prefs.mergeAdjacent then
        RawToken.mergeAdjacent
          (Scanner.run ⟨g, prefs.tokenLimit, prefs.logUnmatched⟩ source.toList).tokens.toList
      else
        (Scanner.run ⟨g, prefs.tokenLimit, prefs.logUnmatched⟩ source.toList).tokens.toList) := by
    split
    · exact htiles.mergeAdjacent
    · exact htiles
  obtain ⟨pieces, heq, hnonempty, htext⟩ := resolvePositions_eq_placed hraw .start
  have hcuts := TokenStream.cuts_placed hnonempty
  rw [htext, String.ofList_toList] at hcuts
  rw [Grammar.tokenize]
  dsimp only
  rwa [heq]

end Highlighting
