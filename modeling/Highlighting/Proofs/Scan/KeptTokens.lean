import Highlighting.Proofs.Scan.Reclassified

/-!
# Tokens of reclassified sources

What `Scanner.run_kept` says of byte ranges holds of the tokens that they become
(`Grammar.Reclassifies.tokenize_kept`), because a byte range of a source has one text and one
span whatever the ranges beside it are (`resolvePositions_eq_map`).
-/

namespace Highlighting

/-- The token that a byte range of a source becomes. -/
def RawToken.resolve (source : List Char) (t : RawToken) : Token :=
  let text := takeBytes (t.stop - t.start) (dropBytes t.start source)
  ⟨t.category, String.ofList text,
    .covering (Position.start.advanceText (takeBytes t.start source)) text⟩

section Resolve

variable {source before cs w after : List Char} {t : RawToken} {ts : List RawToken}

theorem RawToken.resolve_append (hstart : t.start = byteSize before)
    (hstop : t.stop = byteSize before + byteSize w) :
    t.resolve (before ++ (w ++ after)) =
      ⟨t.category, String.ofList w, .covering (Position.start.advanceText before) w⟩ := by
  have hsize : t.stop - t.start = byteSize w := by omega
  rw [resolve, hsize, hstart, (cutBytes_append before _).1, (cutBytes_append before _).2,
    (cutBytes_append w _).1]

theorem RawToken.Spells.resolve_eq (h : t.Spells source w) :
    (t.resolve source).text = String.ofList w ∧
      (t.resolve source).span.start.offset = t.start ∧
      (t.resolve source).span.stop.offset = t.stop := by
  obtain ⟨before, after, rfl, hstart, hstop⟩ := h
  have hoffset : (Position.start.advanceText before).offset = t.start := by
    rw [Position.offset_advanceText, hstart]
    exact Nat.zero_add _
  rw [RawToken.resolve_append hstart (hstart ▸ hstop)]
  refine ⟨rfl, hoffset, ?_⟩
  rw [Span.covering, Position.offset_advanceText, hoffset, hstop]

/-- Each token of a tiling spells a part of the source. -/
theorem Tiles.spells (h : Tiles (byteSize before) cs ts) (hsource : source = before ++ cs)
    (ht : t ∈ ts) : ∃ w, t.Spells source w := by
  induction ts generalizing before cs with
  | nil => cases ht
  | cons u us ih =>
    obtain ⟨a, b, rfl, -, hstart, hstop, hus⟩ := h
    rcases List.mem_cons.1 ht with rfl | ht
    · exact ⟨a, before, b, hsource, hstart, by rw [hstop, hstart]⟩
    · rw [hstop, ← byteSize_append] at hus
      exact ih hus (by rw [hsource, List.append_assoc]) ht

theorem resolvePositions_eq_map (h : Tiles (byteSize before) cs ts)
    (hsource : source = before ++ cs) :
    resolvePositions (Position.start.advanceText before) (byteSize before) cs ts =
      ts.map (RawToken.resolve source) := by
  induction ts generalizing before cs with
  | nil => rfl
  | cons u us ih =>
    obtain ⟨a, b, rfl, -, hstart, hstop, hus⟩ := h
    have hsize : u.stop - u.start = byteSize a := by omega
    have hahead : dropBytes (u.start - byteSize before) (a ++ b) = a ++ b := by
      rw [hstart, Nat.sub_self]
      exact (cutBytes_append [] (a ++ b)).2
    have hcut : cutBytes [] (byteSize a) (a ++ b) = (a, b) :=
      Prod.ext (cutBytes_append a b).1 (cutBytes_append a b).2
    have hplace : (Position.start.advanceText before).advanceText a =
        Position.start.advanceText (before ++ a) := (Position.advanceText_append _ _ _).symm
    rw [hstop, ← byteSize_append] at hus
    have hrest := ih hus (by rw [hsource, List.append_assoc])
    rw [List.map_cons, ← hrest, hsource, RawToken.resolve_append hstart hstop, resolvePositions,
      hahead, hsize, hcut, hstop, byteSize_append]
    simp only [Span.covering, hplace]

end Resolve

namespace Grammar

/-- The progress of a source's scan under some preferences. -/
def progress (g : Grammar) (prefs : LexicalPreferences) (source : String) : Progress :=
  Scanner.run ⟨g, prefs.tokenLimit, prefs.logUnmatched⟩ source.toList

theorem progress_tiles (g : Grammar) (prefs : LexicalPreferences) (source : String) :
    Tiles (byteSize []) source.toList (g.progress prefs source).tokens.toList :=
  Scanner.run_tiles _ source.toList

theorem progress_spells (g : Grammar) {prefs : LexicalPreferences} {source : String} {t : RawToken}
    (ht : t ∈ (g.progress prefs source).tokens.toList) : ∃ w, t.Spells source.toList w :=
  (g.progress_tiles prefs source).spells rfl ht

/-- The tokens of a source and the byte ranges of which they are made have the same places. -/
theorem progress_resolve (g : Grammar) {prefs : LexicalPreferences} {source : String} {t : RawToken}
    (ht : t ∈ (g.progress prefs source).tokens.toList) :
    (t.resolve source.toList).span.start.offset = t.start ∧
      (t.resolve source.toList).span.stop.offset = t.stop := by
  obtain ⟨w, hw⟩ := g.progress_spells ht
  exact hw.resolve_eq.2

/-- The byte ranges that become the tokens of a source. -/
def rawTokens (g : Grammar) (prefs : LexicalPreferences) (source : String) : List RawToken :=
  let found := (g.progress prefs source).tokens.toList
  if prefs.mergeAdjacent then RawToken.mergeAdjacent found else found

theorem rawTokens_tiles (g : Grammar) (prefs : LexicalPreferences) (source : String) :
    Tiles (byteSize []) source.toList (g.rawTokens prefs source) := by
  rw [rawTokens]
  split
  · exact (g.progress_tiles prefs source).mergeAdjacent
  · exact g.progress_tiles prefs source

theorem rawTokens_spells (g : Grammar) {prefs : LexicalPreferences} {source : String}
    {t : RawToken} (ht : t ∈ g.rawTokens prefs source) : ∃ w, t.Spells source.toList w :=
  (g.rawTokens_tiles prefs source).spells rfl ht

/-- Each token of a source is what a byte range becomes, whatever the ranges beside it are. -/
theorem tokenize_tokens_eq_resolve (g : Grammar) (prefs : LexicalPreferences) (source : String) :
    (g.tokenize prefs source).value.tokens =
      (g.rawTokens prefs source).map (RawToken.resolve source.toList) :=
  resolvePositions_eq_map (g.rawTokens_tiles prefs source) rfl

/-- Without merging the tokens of a source are those that its scan finds. -/
theorem tokenize_tokens_eq_map (g : Grammar) (prefs : LexicalPreferences)
    (hmerge : prefs.mergeAdjacent = false) (source : String) :
    (g.tokenize prefs source).value.tokens =
      (g.progress prefs source).tokens.toList.map (RawToken.resolve source.toList) := by
  rw [tokenize_tokens_eq_resolve, rawTokens, hmerge]
  rfl

variable {g g' : Grammar} {words : List String} {shadows : Cursor → CompiledRule → Bool}

/-- A token of a source is found with a grammar that reclassifies words, unless it is a word or lies
in the extent of a shadowing match. -/
theorem Reclassifies.tokenize_kept (hg : g.Reclassifies g' words shadows)
    {prefs : LexicalPreferences} {source : String} (hmerge : prefs.mergeAdjacent = false)
    {extents : List (Nat × Nat)}
    (hextents : Scanner.extents ⟨g, prefs.tokenLimit, prefs.logUnmatched⟩ shadows source.toList =
      extents)
    (hcut : extents = [] ∨ ((g.tokenize prefs source).value.metrics.truncated = false ∧
      (g'.tokenize prefs source).value.metrics.truncated = false))
    {t : Token} (ht : t ∈ (g.tokenize prefs source).value.tokens) (hword : t.text ∉ words)
    (hextent : ∀ x ∈ extents, ¬ (x.1 ≤ t.span.start.offset ∧ t.span.stop.offset ≤ x.2)) :
    t ∈ (g'.tokenize prefs source).value.tokens := by
  rw [tokenize_tokens_eq_map g prefs hmerge, List.mem_map] at ht
  obtain ⟨x, hx, rfl⟩ := ht
  obtain ⟨w, hspells⟩ := g.progress_spells hx
  obtain ⟨-, hstart, hstop⟩ := hspells.resolve_eq
  have hkept := Scanner.run_kept ⟨g, prefs.tokenLimit, prefs.logUnmatched⟩
    ⟨g', prefs.tokenLimit, prefs.logUnmatched⟩ hg rfl (hextents ▸ hcut) (Array.mem_toList_iff.1 hx)
  rcases hkept with (⟨w, hspells, hw⟩ | ⟨y, hy, hle⟩) | hmem
  · exact absurd (hspells.resolve_eq.1 ▸ hw) hword
  · rw [hextents] at hy
    rw [hstart, hstop] at hextent
    exact absurd hle (hextent y hy)
  · rw [tokenize_tokens_eq_map g' prefs hmerge]
    exact List.mem_map_of_mem (Array.mem_toList_iff.2 hmem)

end Grammar

end Highlighting
