import Mathlib.Data.List.TakeWhile
import Highlighting.Text.CaseMap

/-!
# Lower case

The lower-case form of a text is in lower case (`lowercase_lowercase`), and is the same for texts
that differ in the case of ASCII letters only (`lowercase_eq_of_eqIgnoringAsciiCase`).  Points at
the beginning of a text stay where they are and are of no consequence for what is behind them
(`dropPoints_lowerChars`).

That a mapped character is not mapped any further is computed from the runs of the mapping, two runs
at a time (`CaseRun.spares`).
-/

namespace Highlighting

/-! ### Characters in lower case -/

namespace CaseRun

variable {r r' : CaseRun} {n : Nat}

theorem mem_sources (h : r.moves n = true) : n ∈ r.sources := by
  simp only [moves, Bool.and_eq_true, decide_eq_true_eq, beq_iff_eq] at h
  obtain ⟨⟨hfirst, hlast⟩, hstep⟩ := h
  refine List.mem_map.2 ⟨(n - r.first) / r.step, List.mem_range.2 ?_, ?_⟩
  · exact Nat.lt_succ_of_le (Nat.div_le_div_right (Nat.sub_le_sub_right hlast _))
  · rw [Nat.div_mul_cancel (Nat.dvd_of_mod_eq_zero hstep)]
    omega

theorem target_mono {m : Nat} (h : n ≤ m) : r.target n ≤ r.target m := by
  simp only [target, Int.ofNat_eq_natCast]
  omega

/-- What a run moves characters to is not moved by another run: it lies before or behind all that
this one moves, or else each character is looked at. -/
def spares (r r' : CaseRun) : Bool :=
  r.target r.last < r'.first || r'.last < r.target r.first ||
    r.sources.all fun n => !r'.moves (r.target n)

theorem moves_target_of_spares (h : r.spares r' = true) (hn : r.moves n = true) :
    r'.moves (r.target n) = false := by
  have hmem := mem_sources hn
  simp only [moves, Bool.and_eq_true, decide_eq_true_eq] at hn
  have hfirst : r.target r.first ≤ r.target n := target_mono hn.1.1
  have hlast : r.target n ≤ r.target r.last := target_mono hn.1.2
  simp only [spares, Bool.or_eq_true, decide_eq_true_eq, List.all_eq_true, Bool.not_eq_true'] at h
  rcases h with (h | h) | h
  · simp only [moves, Bool.and_eq_false_iff, decide_eq_false_iff_not]
    omega
  · simp only [moves, Bool.and_eq_false_iff, decide_eq_false_iff_not]
    omega
  · exact h n hmem

end CaseRun

/-- No mapped character is mapped any further by the runs. -/
theorem lowerRuns_spare : ∀ r ∈ lowerRuns, ∀ r' ∈ lowerRuns, r.spares r' = true := by
  have h : (lowerRuns.all fun r => lowerRuns.all r.spares) = true := by
    decide +kernel
  exact fun r hr r' hr' => List.all_eq_true.1 (List.all_eq_true.1 h r hr) r' hr'

/-- Mapped characters are none of those that the mapping of texts treats apart, and no points. -/
def isCommon (n : Nat) : Bool :=
  let c := Char.ofNat n
  c.toNat == n && c.toNat != 0x3a3 && c.toNat != 0x130 && c != '.' && (0x80 ≤ n || c.toLower == c)

theorem lowerRuns_common : ∀ r ∈ lowerRuns, ∀ n ∈ r.sources, isCommon (r.target n) = true := by
  have h : (lowerRuns.all fun r => r.sources.all fun n => isCommon (r.target n)) = true := by
    decide +kernel
  exact fun r hr n hn => List.all_eq_true.1 (List.all_eq_true.1 h r hr) n hn

/-- A property of all ASCII characters, from all code points. -/
theorem forall_ascii {P : Char → Prop} (h : ∀ n, n < 0x80 → P (Char.ofNat n)) {c : Char}
    (hc : c.toNat < 0x80) : P c := by
  have hchar := h c.toNat hc
  rwa [Char.ofNat_toNat] at hchar

/-- A character is its own lower-case form wherever it stands. -/
structure IsLow (c : Char) : Prop where
  ne_sigma : c.toNat ≠ 0x3a3
  low : lowerChar c = [c]

theorem moveBy_lowerRuns (c : Char) : moveBy lowerRuns c = c ∨
    ∃ r ∈ lowerRuns, r.moves c.toNat = true ∧
      moveBy lowerRuns c = Char.ofNat (r.target c.toNat) := by
  rw [moveBy]
  cases h : lowerRuns.find? (·.moves c.toNat) with
  | none => exact .inl rfl
  | some r =>
    have hmoves := List.find?_some h
    exact .inr ⟨r, List.mem_of_find?_eq_some h, hmoves, rfl⟩

/-- What the runs move a character to is in lower case. -/
theorem isLow_target {r : CaseRun} (hr : r ∈ lowerRuns) {n : Nat} (hn : r.moves n = true) :
    IsLow (Char.ofNat (r.target n)) ∧ Char.ofNat (r.target n) ≠ '.' := by
  have hcommon := lowerRuns_common r hr n (CaseRun.mem_sources hn)
  simp only [isCommon, Bool.and_eq_true, Bool.or_eq_true, beq_iff_eq, bne_iff_ne,
    decide_eq_true_eq] at hcommon
  obtain ⟨⟨⟨⟨hnat, hsigma⟩, hdotted⟩, hpoint⟩, hlow⟩ := hcommon
  refine ⟨⟨hsigma, ?_⟩, hpoint⟩
  have hfind : lowerRuns.find? (·.moves (r.target n)) = none := by
    refine List.find?_eq_none.2 fun r' hr' => ?_
    rw [CaseRun.moves_target_of_spares (lowerRuns_spare r hr r' hr') hn]
    exact Bool.false_ne_true
  rw [lowerChar, moveBy, hnat, hfind]
  rw [hnat] at hdotted
  split
  · next hascii => rw [hlow.resolve_left (Nat.not_le.2 hascii)]
  · rfl

/-- The characters of a lower-case form are in lower case, and one that is no point begins with
none. -/
theorem lowerChar_isLow {c : Char} (hc : c.toNat ≠ 0x3a3) :
    (∀ d ∈ lowerChar c, IsLow d) ∧ ∃ d ds, lowerChar c = d :: ds ∧ (d = '.' → c = '.') := by
  rw [lowerChar]
  split
  · next hascii =>
    have hlow : c.toLower.toNat ≠ 0x3a3 ∧ lowerChar c.toLower = [c.toLower] ∧
        (c.toLower = '.' → c = '.') :=
      forall_ascii (P := fun c => c.toLower.toNat ≠ 0x3a3 ∧ lowerChar c.toLower = [c.toLower] ∧
        (c.toLower = '.' → c = '.')) (by decide +kernel) hascii
    refine ⟨fun d hd => ?_, c.toLower, [], rfl, hlow.2.2⟩
    obtain rfl := List.mem_singleton.1 hd
    exact ⟨hlow.1, hlow.2.1⟩
  next hascii =>
  split
  · refine ⟨fun d hd => ?_, 'i', [Char.ofNat 0x307], rfl, fun h => absurd h (by decide)⟩
    simp only [List.mem_cons, List.not_mem_nil, or_false] at hd
    rcases hd with rfl | rfl
    · exact ⟨by decide, by decide +kernel⟩
    · exact ⟨by decide, by decide +kernel⟩
  next hdotted =>
  rcases moveBy_lowerRuns c with hsame | ⟨r, hr, hmoves, htarget⟩
  · refine ⟨fun d hd => ?_, c, [], by rw [hsame], id⟩
    rw [hsame] at hd
    obtain rfl := List.mem_singleton.1 hd
    exact ⟨hc, by rw [lowerChar, if_neg hascii, if_neg hdotted, hsame]⟩
  · obtain ⟨hlow, hpoint⟩ := isLow_target hr hmoves
    rw [htarget]
    refine ⟨fun d hd => ?_, _, [], rfl, fun h => absurd h hpoint⟩
    obtain rfl := List.mem_singleton.1 hd
    exact hlow

/-! ### Texts in lower case -/

/-- What the mapping of texts makes of a character at a place. -/
def lowerAt (before : List Char) (c : Char) (cs : List Char) : List Char :=
  if c.toNat = 0x3a3 then
    [Char.ofNat (if beginsCased before && !beginsCased cs then 0x3c2 else 0x3c3)]
  else lowerChar c

theorem lowerChars_cons (before : List Char) (c : Char) (cs : List Char) :
    lowerChars before (c :: cs) = lowerAt before c cs ++ lowerChars (c :: before) cs := rfl

theorem lowerAt_isLow (before : List Char) (c : Char) (cs : List Char) :
    (∀ d ∈ lowerAt before c cs, IsLow d) ∧
      ∃ d ds, lowerAt before c cs = d :: ds ∧ (d = '.' → c = '.') := by
  rw [lowerAt]
  split
  · have hsmall : IsLow (Char.ofNat 0x3c2) ∧ IsLow (Char.ofNat 0x3c3) :=
      ⟨⟨by decide, by decide +kernel⟩, by decide, by decide +kernel⟩
    split
    · exact ⟨by simpa using hsmall.1, _, [], rfl, fun h => absurd h (by decide)⟩
    · exact ⟨by simpa using hsmall.2, _, [], rfl, fun h => absurd h (by decide)⟩
  · next hc => exact lowerChar_isLow hc

theorem isLow_lowerChars (before cs : List Char) : ∀ d ∈ lowerChars before cs, IsLow d := by
  induction cs generalizing before with
  | nil => simp [lowerChars]
  | cons c cs ih =>
    intro d hd
    rw [lowerChars_cons, List.mem_append] at hd
    exact hd.elim ((lowerAt_isLow before c cs).1 d) (ih _ d)

theorem lowerChars_of_isLow (before : List Char) {cs : List Char} (h : ∀ c ∈ cs, IsLow c) :
    lowerChars before cs = cs := by
  induction cs generalizing before with
  | nil => rfl
  | cons c cs ih =>
    obtain ⟨hc, hcs⟩ := List.forall_mem_cons.1 h
    rw [lowerChars_cons, lowerAt, if_neg hc.ne_sigma, hc.low, ih _ hcs]
    rfl

/-- A text in lower case stays as it is. -/
theorem lowercase_lowercase (s : String) : lowercase (lowercase s) = lowercase s := by
  rw [lowercase, lowercase, String.toList_ofList,
    lowerChars_of_isLow [] (isLow_lowerChars [] s.toList)]

/-! ### The case of ASCII letters -/

/-- The mapping of texts treats an ASCII capital like the small letter, and none is a point. -/
structure LowersAlike (c : Char) : Prop where
  point : c.toLower = '.' ↔ c = '.'
  sigma : c.toLower.toNat = 0x3a3 ↔ c.toNat = 0x3a3
  lower : lowerChar c.toLower = lowerChar c
  cased : casedIntervals.has c.toLower = casedIntervals.has c
  ignorable : caseIgnorableIntervals.has c.toLower = caseIgnorableIntervals.has c

theorem lowersAlike (c : Char) : LowersAlike c := by
  by_cases hupper : 'A'.val ≤ c.val ∧ c.val ≤ 'Z'.val
  · have halike : ∀ n, n < 26 → let c := Char.ofNat (0x41 + n)
        (c.toLower = '.' ↔ c = '.') ∧ (c.toLower.toNat = 0x3a3 ↔ c.toNat = 0x3a3) ∧
        lowerChar c.toLower = lowerChar c ∧
        casedIntervals.has c.toLower = casedIntervals.has c ∧
        caseIgnorableIntervals.has c.toLower = caseIgnorableIntervals.has c := by
      decide +kernel
    have hrange : 0x41 ≤ c.toNat ∧ c.toNat ≤ 0x5a := hupper
    have hc : Char.ofNat (0x41 + (c.toNat - 0x41)) = c := by
      rw [Nat.add_sub_cancel' hrange.1, Char.ofNat_toNat]
    obtain ⟨hpoint, hsigma, hlower, hcased, hignorable⟩ := hc ▸ halike (c.toNat - 0x41) (by omega)
    exact ⟨hpoint, hsigma, hlower, hcased, hignorable⟩
  · have hsame : c.toLower = c := dif_neg hupper
    constructor <;> rw [hsame]

theorem toLower_eq_point {c : Char} : c.toLower = '.' ↔ c = '.' := (lowersAlike c).point

theorem beginsCased_map_toLower (cs : List Char) :
    beginsCased (cs.map Char.toLower) = beginsCased cs := by
  have hignorable : caseIgnorableIntervals.has ∘ Char.toLower = caseIgnorableIntervals.has :=
    funext fun c => (lowersAlike c).ignorable
  rw [beginsCased, beginsCased, List.dropWhile_map, hignorable]
  cases cs.dropWhile caseIgnorableIntervals.has with
  | nil => rfl
  | cons c cs => exact (lowersAlike c).cased

theorem lowerChars_map_toLower (before cs : List Char) :
    lowerChars (before.map Char.toLower) (cs.map Char.toLower) = lowerChars before cs := by
  induction cs generalizing before with
  | nil => rfl
  | cons c cs ih =>
    have hat : lowerAt (before.map Char.toLower) c.toLower (cs.map Char.toLower) =
        lowerAt before c cs := by
      rw [lowerAt, lowerAt, beginsCased_map_toLower, beginsCased_map_toLower, (lowersAlike c).lower]
      simp only [(lowersAlike c).sigma]
    rw [List.map_cons, lowerChars_cons, lowerChars_cons, hat]
    exact congrArg _ (ih (c :: before))

/-- The case of ASCII letters is of no consequence. -/
theorem lowercase_eq_of_eqIgnoringAsciiCase {s t : String} (h : eqIgnoringAsciiCase s t = true) :
    lowercase s = lowercase t := by
  rw [eqIgnoringAsciiCase, beq_iff_eq] at h
  rw [lowercase, lowercase, ← lowerChars_map_toLower [] s.toList, h]
  exact congrArg String.ofList (lowerChars_map_toLower [] t.toList)

/-! ### Points at the beginning -/

/-- A point is passed over where it is looked for a cased letter. -/
theorem beginsCased_insert_point (us cs : List Char) :
    beginsCased (us ++ '.' :: cs) = beginsCased (us ++ cs) := by
  have hpoint : caseIgnorableIntervals.has '.' = true := by
    decide +kernel
  rw [beginsCased, beginsCased, List.dropWhile_append, List.dropWhile_append,
    List.dropWhile_cons_of_pos hpoint]
  cases us.dropWhile caseIgnorableIntervals.has with
  | nil => rfl
  | cons u us => rfl

theorem lowerChars_insert_point (us before cs : List Char) :
    lowerChars (us ++ '.' :: before) cs = lowerChars (us ++ before) cs := by
  induction cs generalizing us with
  | nil => rfl
  | cons c cs ih =>
    rw [lowerChars_cons, lowerChars_cons, lowerAt, lowerAt, beginsCased_insert_point]
    exact congrArg _ (ih (c :: us))

/-- A text without the points that it begins with. -/
def dropPoints (cs : List Char) : List Char := cs.dropWhile (· == '.')

theorem exists_eq_replicate_append (cs : List Char) :
    ∃ k, cs = List.replicate k '.' ++ dropPoints cs := by
  have hpoints : ∀ c ∈ cs.takeWhile (· == '.'), c = '.' := fun c hc =>
    beq_iff_eq.1 (List.mem_takeWhile_imp (p := (· == '.')) hc)
  refine ⟨(cs.takeWhile (· == '.')).length, ?_⟩
  rw [← List.eq_replicate_of_mem hpoints, dropPoints, List.takeWhile_append_dropWhile]

theorem dropPoints_map_toLower (cs : List Char) :
    dropPoints (cs.map Char.toLower) = (dropPoints cs).map Char.toLower := by
  have hpoint : (fun c : Char => c == '.') ∘ Char.toLower = fun c => c == '.' := by
    funext c
    rw [Function.comp_apply, Bool.eq_iff_iff, beq_iff_eq, beq_iff_eq, toLower_eq_point]
  rw [dropPoints, List.dropWhile_map, hpoint, dropPoints]

theorem dropPoints_lowerChars (cs : List Char) :
    dropPoints (lowerChars [] cs) = lowerChars [] (dropPoints cs) := by
  induction cs with
  | nil => rfl
  | cons c cs ih =>
    by_cases hc : c = '.'
    · have hlow : lowerChars [] ('.' :: cs) = '.' :: lowerChars [] cs := by
        have hinsert := lowerChars_insert_point [] [] cs
        rw [List.nil_append, List.nil_append] at hinsert
        rw [lowerChars_cons, hinsert]
        rfl
      rw [hc, hlow, dropPoints, dropPoints, List.dropWhile_cons_of_pos (by decide),
        List.dropWhile_cons_of_pos (by decide)]
      exact ih
    · obtain ⟨d, ds, hd, hpoint⟩ := (lowerAt_isLow [] c cs).2
      have hkeep : dropPoints (c :: cs) = c :: cs := List.dropWhile_cons_of_neg (by simpa using hc)
      rw [hkeep, lowerChars_cons, hd]
      exact List.dropWhile_cons_of_neg (by simpa using mt hpoint hc)

end Highlighting
