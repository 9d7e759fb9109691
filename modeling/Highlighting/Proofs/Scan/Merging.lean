import Highlighting.Proofs.Scan.KeptTokens

/-!
# Joining neighbours before and after positions are known

A scan joins neighbours as byte ranges, which have to touch, and finds positions for the joined
ranges.  A token stream joins its tokens by their texts and spans, and does not look whether they
touch.  For byte ranges that tile a source both give the same tokens
(`Tiles.resolve_mergeAdjacent`), so a source that is tokenized with joining has the stream that it
has without, joined (`Grammar.tokenize_mergeAdjacent`).
-/

namespace Highlighting

/-- A span and the one behind it make the span of both texts. -/
theorem Span.merge_covering (p : Position) (u : List Char) {v : List Char} (hv : v ≠ []) :
    (covering p u).merge (covering (p.advanceText u) v) = covering p (u ++ v) := by
  have hpos := byteSize_pos hv
  have hstart : (covering p u).start.offset ≤ (covering (p.advanceText u) v).start.offset := by
    simp [covering, Position.offset_advanceText]
  have hstop : ¬ (covering p u).stop.offset ≥ (covering (p.advanceText u) v).stop.offset := by
    simp only [covering, Position.offset_advanceText]
    omega
  rw [merge, if_pos hstart, if_neg hstop, covering, covering, covering, Position.advanceText_append]

/-! ### Joined streams -/

namespace TokenStream

/-- No two neighbours of a stream have one category. -/
def Alternates (ts : TokenStream) : Prop := ts.IsChain fun t u => t.category ≠ u.category

variable {t u : Token} {ts : TokenStream}

/-- The first token keeps its category when another is put in front, or is the second one then. -/
theorem Alternates.joinFront (h : ts.Alternates) (t : Token) : (joinFront t ts).Alternates := by
  cases ts with
  | nil => exact .singleton t
  | cons u us =>
    rw [TokenStream.joinFront]
    split
    · next hcategory =>
      cases us with
      | nil => exact .singleton _
      | cons v vs =>
        obtain ⟨hne, hchain⟩ := List.isChain_cons_cons.1 h
        exact .cons_cons (fun h => hne (hcategory.symm.trans h)) hchain
    · next hcategory => exact .cons_cons hcategory h

theorem alternates_mergeAdjacent (ts : TokenStream) : (mergeAdjacent ts).Alternates := by
  induction ts with
  | nil => exact .nil
  | cons t ts ih => exact ih.joinFront t

/-- There is nothing to join in a stream whose neighbours differ. -/
theorem Alternates.mergeAdjacent_eq (h : ts.Alternates) : mergeAdjacent ts = ts := by
  induction ts with
  | nil => rfl
  | cons t ts ih =>
    cases ts with
    | nil => rfl
    | cons u us =>
      obtain ⟨hne, hrest⟩ := List.isChain_cons_cons.1 h
      have hstep : mergeAdjacent (t :: u :: us) =
          TokenStream.joinFront t (mergeAdjacent (u :: us)) := rfl
      rw [hstep, ih hrest, TokenStream.joinFront, if_neg hne]

end TokenStream

/-! ### Byte ranges that tile a source -/

section Tiles

variable {source before cs : List Char} {t : RawToken} {ts : List RawToken}

/-- A byte range that is put in front of others joins the first of them if its token joins the first
of theirs, and becomes the joined token. -/
theorem Tiles.resolve_joinFront (h : Tiles (byteSize before) cs (t :: ts))
    (hsource : source = before ++ cs) :
    (t.joinFront ts).map (RawToken.resolve source) =
      TokenStream.joinFront (t.resolve source) (ts.map (RawToken.resolve source)) := by
  cases ts with
  | nil => rfl
  | cons u us =>
    obtain ⟨a, _, rfl, -, hstart, hstop, b, c, rfl, hb, hstart', hstop', -⟩ := h
    have htouch : t.stop = u.start := hstart'.symm
    rw [hstop, ← byteSize_append] at hstart' hstop'
    -- the source around the first range, around the second one and around both
    have hfirst : source = before ++ (a ++ (b ++ c)) := hsource
    have hsecond : source = (before ++ a) ++ (b ++ c) := by simp [hsource]
    have hboth : source = before ++ ((a ++ b) ++ c) := by simp [hsource]
    have ht : t.resolve source = _ := hfirst ▸ RawToken.resolve_append hstart hstop
    have hu : u.resolve source = _ := hsecond ▸ RawToken.resolve_append hstart' hstop'
    rw [List.map_cons, RawToken.joinFront, TokenStream.joinFront]
    by_cases hcategory : t.category = u.category
    · have hends : u.stop = byteSize before + byteSize (a ++ b) := by
        simp [hstop', Nat.add_assoc]
      let joined : RawToken := ⟨t.category, t.start, u.stop⟩
      have hjoined : joined.resolve source = _ :=
        hboth ▸ RawToken.resolve_append (t := joined) hstart hends
      have hjoin : (t.resolve source).category = (u.resolve source).category := hcategory
      rw [if_pos ⟨hcategory, htouch⟩, if_pos hjoin, List.map_cons, hjoined, ht, hu,
        Position.advanceText_append, Span.merge_covering _ _ hb, String.ofList_append]
    · have hjoin : ¬ (t.resolve source).category = (u.resolve source).category := hcategory
      rw [if_neg (fun h => hcategory h.1), if_neg hjoin]
      rfl

/-- Joined byte ranges become the tokens that the ranges become, joined. -/
theorem Tiles.resolve_mergeAdjacent (h : Tiles (byteSize before) cs ts)
    (hsource : source = before ++ cs) :
    (RawToken.mergeAdjacent ts).map (RawToken.resolve source) =
      TokenStream.mergeAdjacent (ts.map (RawToken.resolve source)) := by
  induction ts generalizing before cs with
  | nil => rfl
  | cons t ts ih =>
    obtain ⟨u, v, rfl, hu, hstart, hstop, hts⟩ := h
    have hrest : Tiles (byteSize (before ++ u)) v ts := by
      rw [byteSize_append, ← hstop]
      exact hts
    have hjoined : Tiles (byteSize before) (u ++ v) (t :: RawToken.mergeAdjacent ts) :=
      ⟨u, v, rfl, hu, hstart, hstop, hts.mergeAdjacent⟩
    have hsource' : source = (before ++ u) ++ v := by simp [hsource]
    calc (t.joinFront (RawToken.mergeAdjacent ts)).map (RawToken.resolve source)
        = TokenStream.joinFront (t.resolve source)
            ((RawToken.mergeAdjacent ts).map (RawToken.resolve source)) :=
          hjoined.resolve_joinFront hsource
      _ = TokenStream.joinFront (t.resolve source)
            (TokenStream.mergeAdjacent (ts.map (RawToken.resolve source))) := by
          rw [ih hrest hsource']

end Tiles

/-- To join neighbours while a source is tokenized is to join the tokens of the stream that is found
without joining.  No two neighbours of the joined stream have one category, and joining it once more
changes nothing. -/
theorem Grammar.tokenize_mergeAdjacent (g : Grammar) (prefs : LexicalPreferences)
    (source : String) :
    let joined := (g.tokenize { prefs with mergeAdjacent := true } source).value.tokens
    let plain := (g.tokenize { prefs with mergeAdjacent := false } source).value.tokens
    joined = plain.mergeAdjacent ∧ joined.Alternates ∧ joined.mergeAdjacent = joined := by
  intro joined plain
  have hjoined : joined = plain.mergeAdjacent := by
    have htiles := g.progress_tiles prefs source
    exact (g.tokenize_tokens_eq_resolve { prefs with mergeAdjacent := true } source).trans
      ((htiles.resolve_mergeAdjacent rfl).trans (congrArg TokenStream.mergeAdjacent
        (g.tokenize_tokens_eq_resolve { prefs with mergeAdjacent := false } source).symm))
  have halternates : joined.Alternates := hjoined ▸ plain.alternates_mergeAdjacent
  exact ⟨hjoined, halternates, halternates.mergeAdjacent_eq⟩

end Highlighting
