import Mathlib.Algebra.Order.BigOperators.Group.List
import Highlighting.Proofs.Scan.Leftovers

/-!
# What the share of classified input leaves out

The share of a source that rules have classified is worked out from the bytes that the metrics count
as unmatched.  These are the bytes of the characters that no rule matches, and they are not all that
rules leave unclassified: the texts that are cut off at the token limit, in the scan of the source
or in that of a group, are not counted (`Grammar.tokenize_unclassified`).  So all that is left is
counted unless the tokens are truncated, and a truncated source whose rest is left may count as
classified throughout (`Grammar.tokenize_misses_rest`).
-/

namespace Highlighting

/-- The tokens of a tiling have the bytes of the text. -/
theorem Tiles.sum_sizes {n : Nat} {cs : List Char} {ts : List RawToken} (h : Tiles n cs ts) :
    (ts.map fun t => t.stop - t.start).sum = byteSize cs := by
  induction ts generalizing n cs with
  | nil =>
    obtain rfl : cs = [] := h
    rfl
  | cons t ts ih =>
    obtain ⟨u, v, rfl, -, hstart, hstop, hts⟩ := h
    have hsize : t.stop - t.start = byteSize u := by omega
    rw [List.map_cons, List.sum_cons, ih hts, hsize, byteSize_append]

/-- Some of the tokens of a tiling have no more bytes than the text. -/
theorem Tiles.sum_sizes_filter_le {n : Nat} {cs : List Char} {ts : List RawToken}
    (h : Tiles n cs ts) (p : RawToken → Bool) :
    ((ts.filter p).map fun t => t.stop - t.start).sum ≤ byteSize cs := by
  rw [← h.sum_sizes]
  exact (List.filter_sublist.map _).sum_le_sum (by simp)

namespace Leftover

/-- The bytes of some texts together. -/
def bytes (ls : List Leftover) : Nat := (ls.map size).sum

theorem bytes_eq (ls : List Leftover) : bytes ls =
    ((ls.filterMap unmatched?).map fun u => u.char.utf8Size).sum + bytes (ls.filter isCut) := by
  induction ls with
  | nil => rfl
  | cons l ls ih =>
    rw [bytes, List.map_cons, List.sum_cons, ← bytes, ih]
    cases l with
    | unmatched u =>
      rw [size_unmatched]
      simp [unmatched?, isCut, Nat.add_assoc]
    | cut offset text =>
      simp only [unmatched?, isCut, List.filterMap_cons, List.filter_cons, if_true, bytes,
        List.map_cons, List.sum_cons]
      omega

theorem bytes_pos {ls : List Leftover} (hsize : ∀ l ∈ ls, 0 < l.size) :
    0 < bytes ls ↔ ls ≠ [] := by
  cases ls with
  | nil => simp [bytes]
  | cons l ls =>
    have hpos := hsize l List.mem_cons_self
    simp only [bytes, List.map_cons, List.sum_cons, ne_eq, List.cons_ne_nil, not_false_eq_true,
      iff_true]
    omega

end Leftover

/-- What is left while progress is made is part of the plain tokens. -/
theorem Progress.Leaves.bytes_le_text {s : Scanner} {ls : List Leftover} {q : Progress}
    (h : Progress.Leaves s ls {} q) :
    Leftover.bytes ls ≤ ((q.tokens.toList.filter fun t => t.category = .text).map
      fun t => t.stop - t.start).sum := by
  obtain ⟨ts, hts, hsub⟩ := h.tokens
  have htokens : q.tokens.toList = ts := hts
  have htext : (ls.map Leftover.token).filter (fun t => t.category = .text) =
      ls.map Leftover.token := List.filter_eq_self.2 (by simp [Leftover.token])
  have hsizes : Leftover.bytes ls =
      ((ls.map Leftover.token).map fun t => t.stop - t.start).sum := by
    simp [Leftover.bytes, Leftover.token, Function.comp_def]
  rw [hsizes, ← htext, htokens]
  exact ((hsub.filter _).map _).sum_le_sum (by simp)

/-- What is left while progress is made over a text is part of it. -/
theorem Progress.Leaves.bytes_le {s : Scanner} {ls : List Leftover} {q : Progress} {n : Nat}
    {cs : List Char} (h : Progress.Leaves s ls {} q) (htiles : Tiles n cs q.tokens.toList) :
    Leftover.bytes ls ≤ byteSize cs :=
  h.bytes_le_text.trans (htiles.sum_sizes_filter_le _)

namespace Grammar

/-- The texts that are left unclassified when a source is tokenized, in the order in which they
stand in it.  Those that are cut off at the token limit are there if the tokens are truncated, and
the metrics count the bytes of all the others and of none of these; so they count all that is left
just if the tokens are not truncated. -/
theorem tokenize_unclassified (g : Grammar) (prefs : LexicalPreferences) (source : String) :
    let metrics := (g.tokenize prefs source).value.metrics
    ∃ left : List Leftover,
      (∀ l, l ∈ left ↔ g.Leaves prefs source l) ∧
      left.Pairwise (fun l l' => l.start + l.size ≤ l'.start) ∧
      (∀ l ∈ left, l.StandsIn source.toList) ∧
      Leftover.bytes left ≤ metrics.bytesScanned ∧
      metrics.truncated = left.any Leftover.isCut ∧
      Leftover.bytes left =
        metrics.fallbackCharacters + Leftover.bytes (left.filter Leftover.isCut) ∧
      (metrics.fallbackCharacters = Leftover.bytes left ↔ metrics.truncated = false) ∧
      (metrics.truncated = false → (metrics.fallbackCharacters = 0 ↔ left = [])) := by
  intro metrics
  obtain ⟨left, hmem, hpairwise, hstands, hleaves⟩ := g.exists_leftovers prefs source
  have hsize : ∀ l ∈ left, 0 < l.size := fun l hl => byteSize_pos (hstands l hl).1
  have hcounted : metrics.fallbackCharacters =
      ((left.filterMap Leftover.unmatched?).map fun u => u.char.utf8Size).sum :=
    hleaves.bytes.trans (Nat.zero_add _)
  have htruncated : metrics.truncated = left.any Leftover.isCut :=
    hleaves.truncated.trans (Bool.false_or _)
  have hbytes := Leftover.bytes_eq left
  rw [← hcounted] at hbytes
  have hcut : metrics.truncated = false ↔ Leftover.bytes (left.filter Leftover.isCut) = 0 := by
    have hpos : 0 < Leftover.bytes (left.filter Leftover.isCut) ↔ left.filter Leftover.isCut ≠ [] :=
      Leftover.bytes_pos fun l hl => hsize l (List.mem_filter.1 hl).1
    rw [htruncated, ← Nat.le_zero, ← Nat.not_lt, hpos, not_not, List.filter_eq_nil_iff]
    simp
  have hall : metrics.fallbackCharacters = Leftover.bytes left ↔ metrics.truncated = false := by
    rw [hcut]
    omega
  refine ⟨left, hmem, hpairwise, hstands, ?_, htruncated, hbytes, hall, fun hnot => ?_⟩
  · have hle := hleaves.bytes_le (g.progress_tiles prefs source)
    rwa [← utf8ByteSize_eq] at hle
  · rw [hall.2 hnot, ← Nat.le_zero, ← Nat.not_lt, Leftover.bytes_pos hsize, not_not]

/-- Words of small letters. -/
def letters : Definition := ⟨"letters", [(rootState, [.rule (.token "[a-z]+" .name)])]⟩

/-- No rule matches anything behind the word in `ab 12`.  Where the token limit is reached behind
the word, none of this is counted, and the share of classified input is that of a source of which
nothing is left. -/
theorem tokenize_misses_rest : ∃ g, letters.build.value = .ok g ∧
    (g.tokenize {} "ab 12").value.metrics.fallbackCharacters = 3 ∧
    let metrics := (g.tokenize { maxTokens := 1 } "ab 12").value.metrics
    metrics.fallbackCharacters = 0 ∧ metrics.coverage = Metrics.coverage { bytesScanned := 5 } ∧
      ¬ ∀ l, g.Leaves { maxTokens := 1 } "ab 12" l → l.size ≤ metrics.fallbackCharacters := by
  have hmetrics : letters.build.value.toOption.map (fun g =>
      ((g.tokenize {} "ab 12").value.metrics.fallbackCharacters,
        let metrics := (g.tokenize { maxTokens := 1 } "ab 12").value.metrics
        (metrics.fallbackCharacters, metrics.bytesScanned, metrics.truncated))) =
      some (3, 0, 5, true) := by
    decide +kernel
  obtain ⟨g, hg, hmetrics⟩ := Option.map_eq_some_iff.1 hmetrics
  simp only [Prod.mk.injEq] at hmetrics
  obtain ⟨hall, hnone, hsize, htruncated⟩ := hmetrics
  refine ⟨g, Except.eq_ok_of_toOption hg, hall, hnone, ?_, fun hclaim => ?_⟩
  · rw [Metrics.coverage, hnone, hsize]
    rfl
  · obtain ⟨left, hmem, -, hstands, hleaves⟩ := g.exists_leftovers { maxTokens := 1 } "ab 12"
    have hcut : left.any Leftover.isCut = true := by
      rw [← Bool.false_or (left.any Leftover.isCut), ← htruncated]
      exact hleaves.truncated.symm
    obtain ⟨l, hl, -⟩ := List.any_eq_true.1 hcut
    have hle := hclaim l ((hmem l).1 hl)
    rw [hnone] at hle
    exact Nat.not_lt.2 hle (byteSize_pos (hstands l hl).1)

end Grammar

end Highlighting
