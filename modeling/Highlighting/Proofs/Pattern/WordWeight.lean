import Highlighting.Proofs.Pattern.Weight
import Highlighting.Proofs.Pattern.Wrapping
import Highlighting.Proofs.Vocabulary

/-!
# The patterns of vocabularies stay within the limit

A choice between words is bounded by the bytes of its written form, or is a set with at most as many
ranges as there are words (`wordChoice_leavesRoom`).  The bound that is quickly found decides
unless the words are almost as many as they may be and all of them single characters.  Then there
is hardly a range of more than one character in the set, and its automata are counted.  In both cases
there is room for the conditions around the choice, so no words make a pattern of a vocabulary too
large (`Vocabulary.WithinLimits.parse_wrapped`).
-/

namespace Highlighting

/-! ### Sets of single characters -/

namespace CharSet

/-- The number of ranges with more than one character. -/
def wide (rs : Intervals) : Nat := rs.countP fun r => r.1 ≠ r.2

theorem wide_cons (r : Nat × Nat) (rs : Intervals) :
    wide (r :: rs) = wide rs + if r.1 = r.2 then 0 else 1 := by
  rw [wide, List.countP_cons]
  by_cases h : r.1 = r.2
  · rw [if_pos h, if_neg (by simpa using h)]
    rfl
  · rw [if_neg h, if_pos (by simpa using h)]
    rfl

/-- Two characters at least are joined to a range with more than one. -/
theorem joinFrom_le (lo hi : Nat) {rs : Intervals} (hrs : ∀ r ∈ rs, r.1 = r.2) :
    (joinFrom lo hi rs).length + wide (joinFrom lo hi rs) ≤
      rs.length + 1 + if lo = hi then 0 else 1 := by
  induction rs generalizing lo hi with
  | nil =>
    rw [joinFrom, wide_cons]
    exact Nat.le_of_eq (by simp [wide])
  | cons r rs ih =>
    obtain ⟨a, b⟩ := r
    obtain ⟨hab, hrest⟩ := List.forall_mem_cons.1 hrs
    obtain rfl : a = b := hab
    rw [joinFrom, List.length_cons]
    split
    · have hjoined := ih lo (max hi a) hrest
      split at hjoined <;> split <;> omega
    · have hapart := ih a a hrest
      rw [if_pos rfl] at hapart
      rw [List.length_cons, wide_cons]
      dsimp only
      omega

theorem length_insertRange (r : Nat × Nat) (rs : Intervals) :
    (insertRange r rs).length = rs.length + 1 := by
  induction rs with
  | nil => rfl
  | cons t ts ih =>
    rw [insertRange]
    split
    · rfl
    · rw [List.length_cons, ih, List.length_cons]

theorem ofRanges_le {rs : Intervals} (hrs : ∀ r ∈ rs, r.1 = r.2) :
    (ofRanges rs).ranges.length + wide (ofRanges rs).ranges ≤ rs.length := by
  have hsorted : ∀ r ∈ rs.foldr insertRange [], r.1 = r.2 := fun r hr => hrs r ((mem_sorted rs).1 hr)
  have hlength : (rs.foldr insertRange []).length = rs.length := by
    induction rs with
    | nil => rfl
    | cons r rs ih =>
      rw [List.foldr_cons, length_insertRange, List.length_cons,
        ih (fun t ht => hrs t (List.mem_cons_of_mem r ht))
          fun t ht => hrs t (List.mem_cons_of_mem r ((mem_sorted rs).1 ht))]
  rw [ofRanges]
  generalize rs.foldr insertRange [] = ts at hsorted hlength
  cases ts with
  | nil => exact Nat.zero_le _
  | cons t ts =>
    obtain ⟨ht, hts⟩ := List.forall_mem_cons.1 hsorted
    have := joinFrom_le t.1 t.2 hts
    rw [if_pos ht] at this
    rw [← hlength, List.length_cons]
    exact this

theorem length_sequences_le (rs : Intervals) :
    (rs.flatMap byteSequences).length ≤ 5 * rs.length + 130 * wide rs := by
  induction rs with
  | nil => exact Nat.le_refl _
  | cons r rs ih =>
    have := length_byteSequences_le r
    rw [List.flatMap_cons, List.length_append, List.length_cons, wide_cons]
    split at this <;> split <;> omega

end CharSet

namespace Pattern

/-! ### Patterns whose automata are bounded -/

variable {p q : Pattern} {m n : Nat}

/-- A pattern that stands by itself adds at most so many bytes to either automaton. -/
def Small (p : Pattern) (n : Nat) : Prop :=
  ∀ d, Adds Tally.weight Tally.weight n (p.states? d .alone)

theorem Small.mono (h : p.Small m) (hle : m ≤ n) : p.Small n := fun d => (h d).mono hle

theorem alone_finish (x : Option Tally) : x.bind (Standing.finish? .alone) = x := by
  cases x <;> rfl

theorem small_look (l : Look) : (look l).Small 32 := by
  intro d t ht
  rw [states?, alone_finish]
  exact Tally.adds_add? 1 0 t ht

theorem small_one (s : CharSet) : (one s).Small
    (64 + 8 * s.ranges.length + 160 * (s.ranges.flatMap CharSet.byteSequences).length) := by
  intro d t ht
  rw [states?, alone_finish]
  exact adds_setStates? d s t ht

theorem Small.seq (hp : p.Small m) (hq : q.Small n) : (seq p q).Small (m + n) := by
  intro d t ht
  cases d with
  | forward =>
    rw [states?, alone_finish]
    exact ((hp .forward).bind (hq .forward)) t ht
  | backward =>
    rw [states?, alone_finish]
    exact ((hq .backward).bind (hp .backward)) t (by omega) |>.imp fun t' ht' =>
      ⟨ht'.1, by omega⟩

theorem small_all : (one .all).Small 21672 := by
  have hsequences := CharSet.length_sequences_le CharSet.all.ranges
  have hone : CharSet.all.ranges.length = 1 := rfl
  have hwide : CharSet.wide CharSet.all.ranges = 1 := rfl
  exact (small_one .all).mono (by omega)

/-- A whole automaton adds the states where it begins and ends. -/
theorem Small.whole (h : p.Small n) (d : Direction) (begins : Bool) {marks : Nat}
    (hmarks : marks ≤ 1) : Adds Tally.weight Tally.weight (n + 208) fun t =>
      (((if begins = true then t.add? 1 0 else t.add? 3 16).bind (·.add? marks 0)).bind
        (p.states? d .alone)).bind (·.add? (marks + 1) 0) := by
  have hstart : Adds Tally.weight Tally.weight 112 fun t : Tally =>
      if begins = true then t.add? 1 0 else t.add? 3 16 := by
    cases begins with
    | true => exact (Tally.adds_add? 1 0).mono (by decide)
    | false => exact Tally.adds_add? 3 16
  have hmark : Adds Tally.weight Tally.weight 32 (Tally.add? marks 0) :=
    (Tally.adds_add? marks 0).mono (by omega)
  have hend : Adds Tally.weight Tally.weight 64 (Tally.add? (marks + 1) 0) :=
    (Tally.adds_add? (marks + 1) 0).mono (by omega)
  exact (((hstart.bind hmark).bind (h d)).bind hend).mono (by omega)

/-- A pattern that is small, with room for where its automata begin and end, is within the
limit. -/
theorem Small.fits (h : p.Small n) (hn : n + 208 ≤ Limits.maxPatternWeight) : p.fits = true := by
  have hroom : (⟨0, 0⟩ : Tally).weight + (n + 208) ≤ Limits.maxPatternWeight := by
    show 0 + (n + 208) ≤ _
    omega
  have hforward : (p.automaton? .forward).isSome = true := by
    obtain ⟨t, ht, -⟩ := h.whole .forward (p.asksFirst .textStart) (Nat.le_refl 1) _ hroom
    exact Option.isSome_iff_exists.2 ⟨t, ht⟩
  have hbackward : (p.automaton? .backward).isSome = true := by
    obtain ⟨t, ht, -⟩ := h.whole .backward (p.asksLast .textEnd) (Nat.zero_le 1) _ hroom
    exact Option.isSome_iff_exists.2 ⟨t, ht⟩
  rw [Pattern.fits, hforward, hbackward]
  exact Bool.or_true _

/-! ### Choices between words -/

/-- A choice is so light that there is room for conditions around it. -/
def LeavesRoom (p : Pattern) : Prop :=
  p.weightBound + 4000 ≤ Limits.maxPatternWeight ∨
    ∃ n, p.Small n ∧ n + 40000 ≤ Limits.maxPatternWeight

theorem LeavesRoom.fits (h : p.LeavesRoom) (hbound : q.weightBound ≤ p.weightBound + 3700)
    (hsmall : ∀ n, p.Small n → q.Small (n + 39000)) : q.fits = true := by
  rcases h with h | ⟨n, hn, h⟩
  · rw [Pattern.fits, decide_eq_true (by omega), Bool.true_or]
  · exact (hsmall n hn).fits (by omega)

theorem weightBound_one_le (s : CharSet) :
    (one s).weightBound ≤ 100 + 2560 * s.ranges.length := by
  rw [weightBound]
  split <;> omega

/-- A set of single characters leaves room when there are no more of them than a vocabulary may
have words. -/
theorem leavesRoom_one {rs : Intervals} (hrs : ∀ r ∈ rs, r.1 = r.2)
    (hlength : rs.length ≤ Limits.maxVocabularyWords) : (one (.ofRanges rs)).LeavesRoom := by
  have hranges := CharSet.ofRanges_le hrs
  have hsequences := CharSet.length_sequences_le (CharSet.ofRanges rs).ranges
  have hbound := weightBound_one_le (.ofRanges rs)
  have hsmall := small_one (.ofRanges rs)
  generalize (CharSet.ofRanges rs).ranges.length = n at *
  simp only [LeavesRoom, Limits.maxPatternWeight, Limits.maxVocabularyWords] at *
  -- with almost all words in ranges of their own, at most one range has more than one
  by_cases hfew : n ≤ 4094
  · exact .inl (by omega)
  · exact .inr ⟨_, hsmall, by omega⟩

theorem weightBound_ofBranches_le (ws : List (List Char)) :
    (ofBranches (ws.map .literal)).weightBound ≤
      80 * byteSize ws.flatten + 200 * ws.length + 100 := by
  match ws with
  | [] => exact Nat.le_of_lt (by decide)
  | [w] =>
    simp only [List.map_cons, List.map_nil, ofBranches, weightBound, List.flatten_cons,
      List.flatten_nil, List.append_nil, List.length_singleton]
    omega
  | w :: w' :: ws =>
    have := weightBound_ofBranches_le (w' :: ws)
    simp only [List.map_cons, ofBranches, weightBound, List.flatten_cons, byteSize_append,
      List.length_cons] at this ⊢
    omega

/-- A choice between words leaves room when it is written within the limits. -/
theorem wordChoice_leavesRoom {ws : List (List Char)} (hws : ws ≠ [])
    (hlength : ws.length ≤ Limits.maxVocabularyWords)
    (hbytes : byteSize ws.flatten + ws.length ≤ Limits.maxPatternLength) :
    (wordChoice ws).LeavesRoom := by
  have hbranches : (ofBranches (ws.map .literal)).LeavesRoom := by
    have := weightBound_ofBranches_le ws
    simp only [LeavesRoom, Limits.maxPatternWeight, Limits.maxVocabularyWords,
      Limits.maxPatternLength] at *
    exact .inl (by omega)
  match ws with
  | [w] => exact hbranches
  | w :: w' :: ws =>
    rw [wordChoice_many, List.map_cons, List.map_cons, plainChoice_many, ← List.map_cons,
      ← List.map_cons]
    cases hsets : ((w :: w' :: ws).map literal).mapM asSet? with
    | none => exact hbranches
    | some sets =>
      obtain ⟨cs, hcs, rfl⟩ := mapM_asSet?_words hsets
      dsimp only
      rw [ofSet]
      split
      · next c hc =>
        refine .inl ?_
        have : c.utf8Size ≤ 4 := c.utf8Size_le_four
        simp only [weightBound, byteSize_cons, byteSize_nil, Limits.maxPatternWeight]
        omega
      · refine leavesRoom_one (fun r hr => ?_) ?_
        · obtain ⟨s, hs, hr⟩ := List.mem_flatMap.1 hr
          obtain ⟨c, -, rfl⟩ := List.mem_map.1 hs
          rw [List.mem_singleton.1 hr]
        · have hsingle : (cs.map CharSet.single).flatMap CharSet.ranges =
              cs.map fun c => (c.toNat, c.toNat) := by
            rw [List.flatMap_map]
            exact List.flatMap_pure_eq_map _ _
          rwa [hsingle, List.length_map, ← List.length_map (fun c : Char => [c]), ← hcs]

/-- The bytes of words are written with a bar between any two. -/
theorem byteSize_choiceText_ge (ws : List (List Char)) :
    byteSize ws.flatten + ws.length ≤ byteSize (choiceText ws) + 1 := by
  have hword (w : List Char) : byteSize w ≤ byteSize (w.flatMap escaped) := by
    induction w with
    | nil => exact Nat.le_refl _
    | cons c w ih =>
      have hchar : c.utf8Size ≤ byteSize (escaped c) := by
        rw [escaped]
        split
        · exact Nat.le_add_left _ _
        · exact Nat.le_refl _
      rw [List.flatMap_cons, byteSize_append, byteSize_cons]
      omega
  induction ws with
  | nil => exact Nat.zero_le _
  | cons w ws ih =>
    have hw := hword w
    cases ws with
    | nil =>
      simp only [List.flatten_cons, List.flatten_nil, List.append_nil, List.length_singleton,
        choiceText]
      omega
    | cons w' ws =>
      have hbar : '|'.utf8Size = 1 := rfl
      have htext : choiceText (w :: w' :: ws) =
          w.flatMap escaped ++ '|' :: choiceText (w' :: ws) := by
        rw [choiceText]
        simp
      rw [htext, byteSize_append, byteSize_cons, List.flatten_cons, byteSize_append,
        List.length_cons]
      omega

/-! ### The patterns of a rule -/

theorem limited_eq_ok_of_fits {p : Nested Pattern} (hdepth : p.depth ≤ maxDepth)
    (hfits : p.value.fits = true) (groups : Nat) : limited p groups = .ok ⟨p.value, groups⟩ := by
  rw [limited, if_neg (Nat.not_lt.2 hdepth), if_pos hfits]

theorem sequence_whole (ws : List (List Char)) :
    sequence [.look .textStart, wholeWord ws, .look .textEnd] =
      .seq (.look .textStart) (.seq (.look .wordBoundary)
        (.seq (wordChoice ws) (.seq (.look .wordBoundary) (.look .textEnd)))) := by
  have hend : consPart (.look .textEnd) [] = [.look .textEnd] := rfl
  simp only [sequence, wholeWord, List.flatMap_cons, List.flatMap_nil, parts, List.append_nil, List.cons_append, List.nil_append, List.foldr_cons,
    List.foldr_nil, hend, consPart_look]
  rfl

end Pattern

namespace Vocabulary

open Pattern

variable {v : Vocabulary}

/-- The choice between the words of a vocabulary leaves room for what is around it. -/
theorem WithinLimits.leavesRoom (h : v.WithinLimits) :
    (wordChoice (v.words.map String.toList)).LeavesRoom := by
  refine wordChoice_leavesRoom (by simpa using h.words) ?_ ?_
  · rw [List.length_map]
    exact h.length
  · have hmarks : '\\'.utf8Size = 1 ∧ 'b'.utf8Size = 1 ∧ '('.utf8Size = 1 ∧ '?'.utf8Size = 1 ∧
        ':'.utf8Size = 1 ∧ ')'.utf8Size = 1 := by
      decide
    have hsize : v.pattern.utf8ByteSize =
        byteSize (choiceText (v.words.map String.toList)) + 8 := by
      rw [utf8ByteSize_eq, toList_vocabulary]
      simp only [byteSize_cons, byteSize_append, byteSize_nil]
      omega
    have hwords := byteSize_choiceText_ge (v.words.map String.toList)
    have hbytes := h.bytes
    omega

/-- The wrapped patterns of a vocabulary are read as what they are written for. -/
theorem WithinLimits.parse_wrapped (h : v.WithinLimits) :
    Pattern.parse (CompiledRule.startText v.pattern) =
        .ok ⟨.seq (.look .textStart) (wholeWord (v.words.map String.toList)), 0⟩ ∧
      Pattern.parse (CompiledRule.contextText v.pattern) =
        .ok ⟨.seq (.look .textStart) (.seq (.one .all) (wholeWord (v.words.map String.toList))), 0⟩ ∧
      Pattern.parse (CompiledRule.wholeText v.pattern) = .ok ⟨.seq (.look .textStart)
        (.seq (.look .wordBoundary) (.seq (wordChoice (v.words.map String.toList))
          (.seq (.look .wordBoundary) (.look .textEnd)))), 0⟩ := by
  obtain ⟨s, hs, hread, hdepth⟩ := readsWhole_vocabulary h.words h.nonempty
  have hroom := h.leavesRoom
  have hnormal := hs.isNormal
  have hpattern : s.read.pattern = wholeWord (v.words.map String.toList) := congrArg _ hread
  have hgroups : s.groups = 0 := congrArg Read.groups hread
  have hdeep : s.frame.pattern.depth + 2 ≤ maxDepth :=
    Nat.le_trans (Nat.add_le_add_right hdepth 2) (by decide)
  rw [parse_startText_eq hs, parse_contextText_eq hs, parse_wholeText_eq hs, hgroups]
  rw [hpattern] at hnormal ⊢
  rw [sequence_textStart hnormal, sequence_textStart_all hnormal, sequence_whole]
  generalize v.words.map String.toList = ws at *
  refine ⟨limited_eq_ok_of_fits hdeep (hroom.fits ?_ fun n hn => ?_) 0,
    limited_eq_ok_of_fits hdeep (hroom.fits ?_ fun n hn => ?_) 0,
    limited_eq_ok_of_fits hdeep (hroom.fits ?_ fun n hn => ?_) 0⟩
  · show 32 + (32 + ((wordChoice ws).weightBound + 32)) ≤ _
    omega
  · exact ((small_look _).seq ((small_look _).seq (hn.seq (small_look _)))).mono (by omega)
  · have hall : (one .all).weightBound = 2660 := rfl
    show 32 + ((one .all).weightBound + (32 + ((wordChoice ws).weightBound + 32))) ≤ _
    omega
  · exact ((small_look _).seq (small_all.seq
      ((small_look _).seq (hn.seq (small_look _))))).mono (by omega)
  · show 32 + (32 + ((wordChoice ws).weightBound + (32 + 32))) ≤ _
    omega
  · exact ((small_look _).seq ((small_look _).seq
      (hn.seq ((small_look _).seq (small_look _))))).mono (by omega)

/-- The pattern of a vocabulary does not accept the empty text. -/
theorem WithinLimits.matchesEmpty_eq (h : v.WithinLimits) : matchesEmpty v.pattern = .ok false := by
  obtain ⟨-, -, hwhole⟩ := h.parse_wrapped
  rw [matchesEmpty, Matcher.parse, hwhole]
  refine congrArg Except.ok (Bool.eq_false_iff.2 fun hmatch => ?_)
  obtain ⟨⟨caps, d⟩, hfound⟩ := Option.isSome_iff_exists.1 hmatch
  obtain ⟨c, ⟨u, hu⟩, -, hfinds⟩ := Matcher.find?_sound hfound
  have hleads := hfinds.leads
  simp only [Matcher.ofRead, Route.ofPattern, Route.Leads,
    leads_wordChoice (by simpa using h.words : v.words.map String.toList ≠ [])] at hleads
  obtain ⟨_, ⟨-, rfl⟩, _, ⟨-, rfl⟩, e, ⟨w, hw, hreads⟩, -⟩ := hleads
  obtain ⟨word, hword, rfl⟩ := List.mem_map.1 hw
  -- a word would have to be read from the empty text
  have hnothing := (hu.trans hreads).ahead.symm
  simp only [Cursor.start, List.append_eq_nil_iff] at hnothing
  exact h.nonempty word hword (String.toList_eq_nil_iff.1 hnothing.1.2)

end Vocabulary

end Highlighting
