import Mathlib.Data.List.Basic
import Highlighting.Pattern.CharSet

/-!
# Members of character sets

A set that is built from a list of ranges has the characters of these ranges (`has_ofRanges`):
sorting the ranges by their starts and making one of those that overlap or touch keeps the
characters.  Ranges touch across the code points that are no characters.
-/

namespace Highlighting

namespace CharSet

/-- A code point lies in one of some ranges. -/
def Meets (n : Nat) (rs : Intervals) : Prop := ∃ r ∈ rs, r.1 ≤ n ∧ n ≤ r.2

/-- Ranges are in the order of their starts. -/
def Ordered (rs : Intervals) : Prop := rs.Pairwise fun r t => r.1 ≤ t.1

variable {n lo hi : Nat} {r : Nat × Nat} {rs : Intervals}

theorem meets_cons : Meets n (r :: rs) ↔ (r.1 ≤ n ∧ n ≤ r.2) ∨ Meets n rs := by
  simp [Meets]

theorem covers_iff (h : Ordered rs) : covers n rs = true ↔ Meets n rs := by
  induction rs with
  | nil => simp [covers, Meets]
  | cons r rs ih =>
    obtain ⟨hr, h⟩ := List.pairwise_cons.1 h
    rw [covers, meets_cons, Bool.and_eq_true, Bool.or_eq_true, decide_eq_true_eq,
      decide_eq_true_eq, ih h]
    constructor
    · rintro ⟨hlo, hhi | hrs⟩
      · exact .inl ⟨hlo, hhi⟩
      · exact .inr hrs
    · rintro (⟨hlo, hhi⟩ | ⟨t, ht, hlo, hhi⟩)
      · exact ⟨hlo, .inl hhi⟩
      · exact ⟨Nat.le_trans (hr t ht) hlo, .inr ⟨t, ht, hlo, hhi⟩⟩

theorem mem_insertRange {t : Nat × Nat} : t ∈ insertRange r rs ↔ t = r ∨ t ∈ rs := by
  induction rs with
  | nil => simp [insertRange]
  | cons u us ih =>
    rw [insertRange]
    split
    · simp
    · rw [List.mem_cons, ih, List.mem_cons]
      tauto

theorem Ordered.insertRange (h : Ordered rs) : Ordered (insertRange r rs) := by
  induction rs with
  | nil => exact List.pairwise_singleton _ _
  | cons u us ih =>
    obtain ⟨hu, hus⟩ := List.pairwise_cons.1 h
    rw [CharSet.insertRange]
    split
    · next hle =>
      refine List.pairwise_cons.2 ⟨fun t ht => ?_, h⟩
      rcases List.mem_cons.1 ht with rfl | ht
      · exact hle
      · exact Nat.le_trans hle (hu t ht)
    · refine List.pairwise_cons.2 ⟨fun t ht => ?_, ih hus⟩
      rcases mem_insertRange.1 ht with rfl | ht
      · omega
      · exact hu t ht

theorem ordered_sorted (rs : Intervals) : Ordered (rs.foldr CharSet.insertRange []) := by
  induction rs with
  | nil => exact .nil
  | cons r rs ih => exact ih.insertRange

theorem mem_sorted {t : Nat × Nat} (rs : Intervals) :
    t ∈ rs.foldr insertRange [] ↔ t ∈ rs := by
  induction rs with
  | nil => simp
  | cons r rs ih => rw [List.foldr_cons, mem_insertRange, ih, List.mem_cons]

/-- The next character is not skipped. -/
theorem following_le (hi : Nat) (hn : n.isValidChar) (h : hi < n) : following hi ≤ n := by
  rw [following]
  simp only [Nat.isValidChar] at hn
  split <;> omega

theorem meets_joinFrom (hn : n.isValidChar) (h : Ordered ((lo, hi) :: rs)) :
    Meets n (joinFrom lo hi rs) ↔ (lo ≤ n ∧ n ≤ hi) ∨ Meets n rs := by
  induction rs generalizing lo hi with
  | nil => simp [joinFrom, Meets]
  | cons r rs ih =>
    obtain ⟨a, b⟩ := r
    obtain ⟨hlo, hrs⟩ := List.pairwise_cons.1 h
    have hlo' : lo ≤ a := hlo (a, b) List.mem_cons_self
    rw [joinFrom, meets_cons]
    split
    · next htouch =>
      have hord : Ordered ((lo, max hi b) :: rs) := List.pairwise_cons.2
        ⟨fun t ht => hlo t (List.mem_cons_of_mem _ ht), (List.pairwise_cons.1 hrs).2⟩
      rw [ih hord, ← or_assoc]
      refine or_congr_left ?_
      have hnext := following_le hi hn
      dsimp only
      omega
    · rw [meets_cons, ih hrs]

theorem ordered_joinFrom (h : Ordered ((lo, hi) :: rs)) :
    Ordered (joinFrom lo hi rs) ∧ ∀ t ∈ joinFrom lo hi rs, lo ≤ t.1 := by
  induction rs generalizing lo hi with
  | nil => exact ⟨List.pairwise_singleton _ _, by simp [joinFrom]⟩
  | cons r rs ih =>
    obtain ⟨a, b⟩ := r
    obtain ⟨hlo, hrs⟩ := List.pairwise_cons.1 h
    rw [joinFrom]
    split
    · exact ih (List.pairwise_cons.2
        ⟨fun t ht => hlo t (List.mem_cons_of_mem _ ht), (List.pairwise_cons.1 hrs).2⟩)
    · obtain ⟨hord, hstart⟩ := ih hrs
      have hle : ∀ t ∈ joinFrom a b rs, lo ≤ t.1 := fun t ht =>
        Nat.le_trans (hlo (a, b) List.mem_cons_self) (hstart t ht)
      exact ⟨List.pairwise_cons.2 ⟨hle, hord⟩, List.forall_mem_cons.2 ⟨Nat.le_refl lo, hle⟩⟩

/-- The set of a list of ranges has the characters of the ranges. -/
theorem has_ofRanges (rs : Intervals) (c : Char) :
    (ofRanges rs).has c = true ↔ Meets c.toNat rs := by
  have hmem : Meets c.toNat rs ↔ Meets c.toNat (rs.foldr insertRange []) := by
    simp only [Meets, mem_sorted]
  rw [hmem, ofRanges, has]
  have hord := ordered_sorted rs
  generalize rs.foldr insertRange [] = ts at hord
  cases ts with
  | nil => simp [ofSorted, covers, Meets]
  | cons r ts =>
    have hc : c.toNat.isValidChar := c.valid
    rw [ofSorted, covers_iff (ordered_joinFrom hord).1, meets_joinFrom hc hord, meets_cons]

theorem has_all (c : Char) : all.has c = true := by
  have h : c.toNat.isValidChar := c.valid
  simp only [Nat.isValidChar] at h
  simp only [has, all, covers, lastPoint, Bool.or_false, Nat.zero_le, decide_true, Bool.true_and,
    decide_eq_true_eq]
  omega

/-- The table of word characters and the ASCII word characters agree. -/
theorem has_wordIntervals {c : Char} (hc : c.toNat < 0x80) :
    wordIntervals.has c = isAsciiWordChar c := by
  have hfirst : ∀ n < 0x80, Intervals.has (wordIntervals.take 4) (Char.ofNat n) =
      isAsciiWordChar (Char.ofNat n) := by
    decide +kernel
  have hrest : (wordIntervals.drop 4).all (fun r => decide (0x80 ≤ r.1)) = true := by
    decide +kernel
  have hnone : Intervals.has (wordIntervals.drop 4) c = false := by
    refine Bool.eq_false_iff.2 fun h => ?_
    obtain ⟨r, hr, hlo, -⟩ := Intervals.has_iff.1 h
    have hle := of_decide_eq_true (List.all_eq_true.1 hrest r hr)
    omega
  have h := hfirst c.toNat hc
  rw [Char.ofNat_toNat] at h
  calc
    wordIntervals.has c = Intervals.has (wordIntervals.take 4 ++ wordIntervals.drop 4) c := by
      rw [List.take_append_drop]
    _ = (Intervals.has (wordIntervals.take 4) c || Intervals.has (wordIntervals.drop 4) c) :=
      List.any_append
    _ = isAsciiWordChar c := by
      rw [hnone, h, Bool.or_false]

/-- The set that is built from the table of word characters has the word characters. -/
theorem has_ofRanges_word (c : Char) : (ofRanges wordIntervals).has c = isWordChar c := by
  have htable : (ofRanges wordIntervals).has c = wordIntervals.has c := by
    rw [Bool.eq_iff_iff, has_ofRanges, Intervals.has_iff]
    exact Iff.rfl
  rw [htable, isWordChar]
  split
  · next hc => exact has_wordIntervals hc
  · rfl

end CharSet

end Highlighting
