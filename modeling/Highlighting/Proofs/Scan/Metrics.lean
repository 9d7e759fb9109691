import Mathlib.Data.List.Nodup
import Highlighting.Proofs.Scan.Merging
import Highlighting.Proofs.Scan.Unclassified

/-!
# What the metrics say of the tokens

The counters of a scan and its tokens are found in different places: characters that no rule matches
are counted where they are met, at any depth of scans, and tokens are joined and counted when the
scan is over.  They agree all the same (`Grammar.tokenize_accounts`), because an unmatched character
is a plain token of its own when it is met, and joining tokens changes neither the bytes of a
category (`TokenStream.bytesOf_mergeAdjacent`) nor what the scan has counted.
-/

namespace Highlighting

namespace TokenStream

/-! ### Bytes of a category -/

/-- The bytes of the tokens of a category. -/
def bytesOf (c : Category) (ts : TokenStream) : Nat := ((ts.withCategory c).map Token.length).sum

variable {c : Category}

theorem bytesOf_cons (c : Category) (t : Token) (ts : TokenStream) :
    bytesOf c (t :: ts) = (if t.category = c then t.length else 0) + bytesOf c ts := by
  simp only [bytesOf, withCategory, List.filter_cons, beq_iff_eq]
  split <;> simp

/-- A token that is joined to another one of its category brings its bytes with it. -/
theorem bytesOf_joinFront (c : Category) (t : Token) (ts : TokenStream) :
    bytesOf c (joinFront t ts) = bytesOf c (t :: ts) := by
  cases ts with
  | nil => rfl
  | cons u us =>
    rw [joinFront]
    split
    · next hsame =>
      rw [bytesOf_cons, bytesOf_cons, bytesOf_cons, ← hsame]
      simp only [Token.length, String.utf8ByteSize_append]
      split <;> omega
    · rfl

theorem bytesOf_mergeAdjacent (c : Category) (ts : TokenStream) :
    bytesOf c (mergeAdjacent ts) = bytesOf c ts := by
  induction ts with
  | nil => rfl
  | cons t ts ih =>
    have hstep : mergeAdjacent (t :: ts) = joinFront t (mergeAdjacent ts) := rfl
    rw [hstep, bytesOf_joinFront, bytesOf_cons, bytesOf_cons, ih]

/-! ### Tokens by category -/

/-- A table lists how many tokens of a stream each category has, for those that have one. -/
structure Counted (ts : TokenStream) (table : List (Category × Nat)) : Prop where
  /-- no two entries have one name -/
  nodup : (table.map fun e => e.1.qualifiedName).Nodup
  mem_iff : ∀ c n, (c, n) ∈ table ↔ n = (ts.withCategory c).length ∧ 0 < n
  sum_eq : (table.map Prod.snd).sum = ts.length

theorem sum_countP (ts : TokenStream) :
    (Category.all.map fun c => ts.countP fun t => t.category == c).sum = ts.length := by
  induction ts with
  | nil => decide
  | cons t ts ih =>
    have hone : ∀ c ∈ Category.all,
        (Category.all.map fun d => if (c == d) = true then 1 else 0).sum = 1 := by decide
    simp only [List.countP_cons]
    rw [List.sum_map_add, ih, hone t.category (Category.mem_all _), List.length_cons]

/-- Entries that count nothing add nothing. -/
theorem sum_filter_ne_zero (table : List (Category × Nat)) :
    ((table.filter fun e => e.2 != 0).map Prod.snd).sum = (table.map Prod.snd).sum := by
  induction table with
  | nil => rfl
  | cons e table ih =>
    rw [List.filter_cons]
    split
    · rw [List.map_cons, List.sum_cons, ih, List.map_cons, List.sum_cons]
    · next hzero =>
      have hzero : e.2 = 0 := by simpa using hzero
      rw [ih, List.map_cons, List.sum_cons, hzero, Nat.zero_add]

theorem counted_counts (ts : TokenStream) : ts.Counted ts.counts where
  nodup := by
    have hall : (Category.all.map Category.qualifiedName).Nodup :=
      List.Nodup.map (fun _ _ => Category.qualifiedName_injective) Category.nodup_all
    have hsub : ts.counts.Sublist
        (Category.all.map fun c => (c, ts.countP fun t => t.category == c)) := List.filter_sublist
    have hnames := hsub.map fun e => e.1.qualifiedName
    rw [List.map_map] at hnames
    exact hall.sublist hnames
  mem_iff c n := by
    simp only [counts, List.mem_filter, List.mem_map, Prod.mk.injEq, bne_iff_ne, withCategory,
      ← List.countP_eq_length_filter]
    constructor
    · rintro ⟨⟨d, -, rfl, rfl⟩, hne⟩
      exact ⟨rfl, Nat.pos_of_ne_zero hne⟩
    · rintro ⟨rfl, hpos⟩
      exact ⟨⟨c, Category.mem_all c, rfl, rfl⟩, Nat.ne_of_gt hpos⟩
  sum_eq := by
    rw [counts, sum_filter_ne_zero, List.map_map]
    exact ts.sum_countP

end TokenStream

/-! ### Byte ranges and their tokens -/

/-- The tokens of a category have the bytes of the ranges of this category. -/
theorem Tiles.bytesOf_resolve {source before cs : List Char} {ts : List RawToken}
    (h : Tiles (byteSize before) cs ts) (hsource : source = before ++ cs) (c : Category) :
    TokenStream.bytesOf c (ts.map (RawToken.resolve source)) =
      ((ts.filter fun t => t.category = c).map fun t => t.stop - t.start).sum := by
  have hlength : ∀ t ∈ ts, (t.resolve source).length = t.stop - t.start := by
    intro t ht
    obtain ⟨w, hw⟩ := h.spells hsource ht
    obtain ⟨_, _, -, -, hstop⟩ := id hw
    rw [Token.length, hw.resolve_eq.1, utf8ByteSize_ofList]
    omega
  rw [TokenStream.bytesOf, TokenStream.withCategory, List.filter_map, List.map_map]
  refine congrArg List.sum (List.map_congr_left fun t ht => ?_)
  exact hlength t (List.mem_of_mem_filter ht)

namespace Grammar

/-- Joining changes nothing that a scan has counted, and not the bytes of a category. -/
theorem bytesOf_tokenize (g : Grammar) (prefs : LexicalPreferences) (source : String)
    (c : Category) :
    TokenStream.bytesOf c (g.tokenize prefs source).value.tokens =
      (((g.progress prefs source).tokens.toList.filter fun t => t.category = c).map
        fun t => t.stop - t.start).sum := by
  have htiles := g.progress_tiles prefs source
  have hsource : source.toList = [] ++ source.toList := (List.nil_append _).symm
  rw [tokenize_tokens_eq_resolve, rawTokens, ← htiles.bytesOf_resolve hsource]
  split
  · rw [htiles.resolve_mergeAdjacent hsource, TokenStream.bytesOf_mergeAdjacent]
  · rfl

/-- The metrics of a tokenization account for its tokens.  The bytes of unmatched characters are part
of the plain tokens, and these are part of the source, whose bytes are those scanned.  The tokens are
counted all together, and by category if the preferences ask for it.  Whether neighbours are joined
makes no difference to what the scan has counted. -/
theorem tokenize_accounts (g : Grammar) (prefs : LexicalPreferences) (source : String) :
    let result := (g.tokenize prefs source).value
    let metrics := result.metrics
    metrics.bytesScanned = source.utf8ByteSize ∧
    metrics.fallbackCharacters ≤ result.tokens.bytesOf .text ∧
    result.tokens.bytesOf .text ≤ metrics.bytesScanned ∧
    metrics.totalTokens = result.tokens.length ∧
    (if prefs.detailedMetrics then result.tokens.Counted metrics.tokensByCategory
      else metrics.tokensByCategory = []) ∧
    ∀ merge, let metrics' :=
        (g.tokenize { prefs with mergeAdjacent := merge } source).value.metrics
      metrics'.fallbackCharacters = metrics.fallbackCharacters ∧
      metrics'.maxStackDepth = metrics.maxStackDepth ∧
      metrics'.ignoredPushes = metrics.ignoredPushes ∧
      metrics'.truncated = metrics.truncated := by
  intro result metrics
  obtain ⟨left, -, -, -, hleaves⟩ := g.exists_leftovers prefs source
  have htiles := g.progress_tiles prefs source
  have htext := g.bytesOf_tokenize prefs source .text
  refine ⟨rfl, ?_, ?_, rfl, ?_, fun merge => ⟨rfl, rfl, rfl, rfl⟩⟩
  · calc metrics.fallbackCharacters
        = ((left.filterMap Leftover.unmatched?).map fun u => u.char.utf8Size).sum :=
          hleaves.bytes.trans (Nat.zero_add _)
      _ ≤ Leftover.bytes left := Leftover.bytes_eq left ▸ Nat.le_add_right _ _
      _ ≤ _ := htext ▸ hleaves.bytes_le_text
  · rw [htext]
    exact (htiles.sum_sizes_filter_le _).trans_eq (utf8ByteSize_eq source).symm
  · have htable : metrics.tokensByCategory =
        if prefs.detailedMetrics then result.tokens.counts else [] := rfl
    rw [htable]
    split
    · exact result.tokens.counted_counts
    · rfl

end Grammar

end Highlighting
