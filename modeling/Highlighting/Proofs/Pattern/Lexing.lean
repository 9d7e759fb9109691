import Mathlib.Data.List.TakeWhile
import Highlighting.Proofs.Grammar.Expansion
import Highlighting.Proofs.Pattern.Words

/-!
# Lexemes in front of a parenthesis

What a reader of lexemes takes off the front of a text it also takes when a closing parenthesis
follows the text, because no lexeme that is complete goes on over a parenthesis (`Closable`).  So
the lexemes of a pattern in parentheses are those of the pattern, and around them those of the
parentheses and of what is outside (`Lexes.append_close`).
-/

namespace Highlighting

namespace Pattern

/-- What is read off a text is a part of it and is also read when a closing parenthesis follows,
whatever is behind the parenthesis. -/
def Closable {α : Type} (behind : List Char) (read : List Char → Piece α) : Prop :=
  ∀ ⦃cs a rest⦄, read cs = .ok (a, rest) →
    rest <:+ cs ∧ read (cs ++ ')' :: behind) = .ok (a, rest ++ ')' :: behind)

variable {behind : List Char}

section Runs

variable {p : Char → Bool} {cs : List Char}

/-- A run that does not go on over a parenthesis ends in front of it. -/
theorem dropWhile_append_close (hp : p ')' = false) (cs : List Char) :
    (cs ++ ')' :: behind).dropWhile p = cs.dropWhile p ++ ')' :: behind := by
  induction cs with
  | nil => simp [hp]
  | cons c cs ih =>
    by_cases hc : p c = true
    · simpa [List.dropWhile_cons, hc] using ih
    · simp [hc]

theorem takeWhile_append_close (hp : p ')' = false) (cs : List Char) :
    (cs ++ ')' :: behind).takeWhile p = cs.takeWhile p := by
  induction cs with
  | nil => simp [hp]
  | cons c cs ih =>
    by_cases hc : p c = true
    · simpa [List.takeWhile_cons, hc] using ih
    · simp [hc]

/-- A run that ends inside a text ends there whatever follows the text. -/
theorem dropWhile_append_of_cons {x : Char} {rest : List Char}
    (h : cs.dropWhile p = x :: rest) (more : List Char) :
    (cs ++ more).dropWhile p = x :: (rest ++ more) ∧
      (cs ++ more).takeWhile p = cs.takeWhile p := by
  induction cs with
  | nil => cases h
  | cons c cs ih =>
    by_cases hc : p c = true
    · rw [List.dropWhile_cons, if_pos hc] at h
      simpa [List.dropWhile_cons, List.takeWhile_cons, hc] using ih h
    · rw [List.dropWhile_cons, if_neg hc] at h
      obtain ⟨rfl, rfl⟩ := List.cons.inj h
      simp [hc]

theorem suffix_of_dropWhile {x : Char} {rest : List Char} (h : cs.dropWhile p = x :: rest) :
    rest <:+ cs :=
  (List.suffix_cons x rest).trans (h ▸ List.dropWhile_suffix p)

end Runs

/-- A text that does not begin with a word does not do so in front of a parenthesis. -/
theorem append_close_ne {w cs : List Char} (hw : ')' ∉ w) (h : ∀ rest, cs ≠ w ++ rest)
    (rest : List Char) : cs ++ ')' :: behind ≠ w ++ rest := by
  intro heq
  induction w generalizing cs with
  | nil => exact h cs rfl
  | cons x w ih =>
    cases cs with
    | nil => exact hw ((List.cons.inj heq).1 ▸ List.mem_cons_self)
    | cons y cs =>
      obtain ⟨rfl, heq'⟩ := List.cons.inj heq
      refine ih (fun hmem => hw (List.mem_cons_of_mem y hmem)) (fun rest' hrest => ?_) heq'
      exact h rest' (congrArg (List.cons y) hrest)

/-! ### Escapes -/

theorem Closable.map {α β : Type} {read : List Char → Piece α} (h : Closable behind read)
    (f : α → β) : Closable behind fun cs => (read cs).map (Prod.map f id) := by
  intro cs b rest hread
  dsimp only at hread
  cases hr : read cs with
  | error e => rw [hr] at hread; cases hread
  | ok piece =>
    rw [hr] at hread
    obtain ⟨rfl, rfl⟩ := Prod.mk.inj (Except.ok.inj hread)
    obtain ⟨hsuffix, hclose⟩ := h hr
    refine ⟨hsuffix, ?_⟩
    dsimp only
    rw [hclose]
    rfl

theorem closable_hexEscape (width : Nat) : Closable behind (hexEscape width) := by
  intro cs c rest h
  unfold hexEscape at h
  split at h
  · next after =>
    split at h
    · cases h
    · next x after' hdrop =>
      obtain ⟨hdrop', htake⟩ := dropWhile_append_of_cons hdrop (')' :: behind)
      dsimp only at h
      split at h
      · cases h
      next hdigits =>
      split at h
      · next ch hch =>
        obtain ⟨rfl, rfl⟩ := Prod.mk.inj (Except.ok.inj h)
        refine ⟨(suffix_of_dropWhile hdrop).trans (List.suffix_cons _ _), ?_⟩
        simp only [List.cons_append, hexEscape, hdrop', htake, hdigits, hch]
        rfl
      · cases h
  · next hbrace =>
    split at h
    · cases h
    next hlen =>
    split at h
    · next ch hch =>
      obtain ⟨rfl, rfl⟩ := Prod.mk.inj (Except.ok.inj h)
      have hle : width ≤ cs.length := Nat.not_lt.1 hlen
      refine ⟨List.drop_suffix _ _, ?_⟩
      rw [hexEscape, List.take_append_of_le_length hle, List.drop_append_of_le_length hle, hch,
        if_neg (by simp; omega)]
      rintro r hr
      cases cs with
      | nil => cases hr
      | cons x cs =>
        obtain ⟨rfl, -⟩ := List.cons.inj hr
        exact hbrace _ rfl
    · cases h

theorem closable_escape? : Closable behind escape? := by
  intro cs a rest h
  cases cs with
  | nil => cases h
  | cons c cs =>
    have hplain {a' : Escaped} (h : Except.ok (a', cs) = (.ok (a, rest) : Piece Escaped)) :
        rest <:+ c :: cs ∧
          (.ok (a', cs ++ ')' :: behind) : Piece Escaped) = .ok (a, rest ++ ')' :: behind) := by
      obtain ⟨rfl, rfl⟩ := Prod.mk.inj (Except.ok.inj h)
      exact ⟨List.suffix_cons _ _, rfl⟩
    have hhex {width : Nat} (h : (hexEscape width cs).map (Prod.map Escaped.char id) =
        .ok (a, rest)) : rest <:+ c :: cs ∧
          (hexEscape width (cs ++ ')' :: behind)).map (Prod.map Escaped.char id) =
            .ok (a, rest ++ ')' :: behind) := by
      obtain ⟨hsuffix, hclose⟩ := (closable_hexEscape width).map Escaped.char h
      exact ⟨hsuffix.trans (List.suffix_cons c cs), hclose⟩
    rw [List.cons_append]
    unfold escape? at h ⊢
    dsimp only at h ⊢
    split at h
    iterate 10 exact hplain h
    iterate 3 exact hhex h
    iterate 6 exact hplain h
    split at h
    · cases h
    · next hdigit =>
      split at h
      · next hmark =>
        rw [if_neg hdigit, if_pos hmark]
        exact hplain h
      · cases h

/-! ### Character classes -/

/-- Whether a class begins with a complement mark, and what is behind the mark. -/
def complMark (cs : List Char) : Bool × List Char :=
  match cs with
  | '^' :: rest => (true, rest)
  | _ => (false, cs)

theorem complMark_append_close (cs : List Char) :
    (complMark cs).2 <:+ cs ∧
      complMark (cs ++ ')' :: behind) = ((complMark cs).1, (complMark cs).2 ++ ')' :: behind) := by
  cases cs with
  | nil => exact ⟨List.suffix_refl _, rfl⟩
  | cons c cs =>
    by_cases hc : c = '^'
    · subst hc
      exact ⟨List.suffix_cons _ _, rfl⟩
    · simp [complMark, hc]

/-- The start of a class behind its complement mark. -/
def classFrom (isCompl : Bool) (cs : List Char) : ClassFrame × List Char :=
  let hyphens := (cs.takeWhile (· == '-')).map fun c => Nested.leaf (CharClass.single c)
  match hyphens, cs.dropWhile (· == '-') with
  | [], ']' :: rest => (⟨isCompl, none, [.leaf (.single ']')]⟩, rest)
  | _, rest => (⟨isCompl, none, hyphens⟩, rest)

theorem openClass_eq (cs : List Char) :
    openClass cs = classFrom (complMark cs).1 (complMark cs).2 := rfl

theorem classFrom_append_close (isCompl : Bool) (cs : List Char) :
    (classFrom isCompl cs).2 <:+ cs ∧
      classFrom isCompl (cs ++ ')' :: behind) =
        ((classFrom isCompl cs).1, (classFrom isCompl cs).2 ++ ')' :: behind) := by
  have hdrop : (cs ++ ')' :: behind).dropWhile (· == '-') =
      cs.dropWhile (· == '-') ++ ')' :: behind := dropWhile_append_close (by decide) cs
  have htake : (cs ++ ')' :: behind).takeWhile (· == '-') = cs.takeWhile (· == '-') :=
    takeWhile_append_close (by decide) cs
  have hsuffix := List.dropWhile_suffix (· == '-') (l := cs)
  unfold classFrom
  rw [hdrop, htake]
  generalize (cs.takeWhile (· == '-')).map (fun c => Nested.leaf (CharClass.single c)) = hyphens
  generalize cs.dropWhile (· == '-') = rest at hsuffix
  match hyphens, rest with
  | [], [] => exact ⟨hsuffix, rfl⟩
  | [], x :: rest =>
    by_cases hx : x = ']'
    · subst hx
      exact ⟨(List.suffix_cons _ _).trans hsuffix, rfl⟩
    · simp [hx, hsuffix]
  | c :: cs, rest => exact ⟨hsuffix, rfl⟩

theorem openClass_append_close (cs : List Char) :
    (openClass cs).2 <:+ cs ∧
      openClass (cs ++ ')' :: behind) = ((openClass cs).1, (openClass cs).2 ++ ')' :: behind) := by
  obtain ⟨hmark, hmark'⟩ := complMark_append_close cs
  obtain ⟨hsuffix, hclose⟩ := classFrom_append_close (complMark cs).1 (complMark cs).2
  rw [openClass_eq, openClass_eq, hmark']
  exact ⟨hsuffix.trans hmark, hclose⟩

/-- The name of a class has no parenthesis in it. -/
theorem close_notMem_of_asciiClass? {name : List Char} {s : CharSet}
    (h : asciiClass? name = some s) : ')' ∉ name := by
  unfold asciiClass? at h
  dsimp only at h
  have hname {word : String} (heq : String.ofList name = word) (hword : ')' ∉ word.toList) :
      ')' ∉ name := by
    rwa [← heq, String.toList_ofList] at hword
  split at h
  iterate 14 exact hname ‹_› (by decide)
  cases h

/-- A named class behind its complement mark. -/
def namedFrom? (isCompl : Bool) (cs : List Char) : Option (CharClass × List Char) :=
  match cs.dropWhile (· != ':'), asciiClass? (cs.takeWhile (· != ':')) with
  | ':' :: ']' :: rest, some s => some (if isCompl then .compl (.leaf s) else .leaf s, rest)
  | _, _ => none

theorem namedClass?_colon (cs : List Char) :
    namedClass? (':' :: cs) = namedFrom? (complMark cs).1 (complMark cs).2 := rfl

theorem namedFrom?_append_close (isCompl : Bool) (cs : List Char) :
    (∀ s rest, namedFrom? isCompl cs = some (s, rest) → rest <:+ cs) ∧
      namedFrom? isCompl (cs ++ ')' :: behind) =
        (namedFrom? isCompl cs).map fun (s, rest) => (s, rest ++ ')' :: behind) := by
  unfold namedFrom?
  cases hdrop : cs.dropWhile (· != ':') with
  | nil =>
    have htake : (cs ++ ')' :: behind).takeWhile (· != ':') =
        cs ++ ')' :: behind.takeWhile (· != ':') := by
      rw [List.takeWhile_append_of_pos (List.dropWhile_eq_nil_iff.1 hdrop)]
      rfl
    cases hclass : asciiClass? ((cs ++ ')' :: behind).takeWhile (· != ':')) with
    | none => simp
    | some s =>
      rw [htake] at hclass
      exact absurd (by simp) (close_notMem_of_asciiClass? hclass)
  | cons x rest =>
    obtain ⟨hdrop', htake⟩ := dropWhile_append_of_cons hdrop (')' :: behind)
    have hsuffix := suffix_of_dropWhile hdrop
    rw [hdrop', htake]
    cases asciiClass? (cs.takeWhile (· != ':')) with
    | none => simp
    | some s =>
      by_cases hx : x = ':'
      · subst hx
        cases rest with
        | nil => simp
        | cons y rest =>
          by_cases hy : y = ']'
          · subst hy
            simp
            exact (List.suffix_cons _ _).trans hsuffix
          · simp [hy]
      · simp [hx]

/-- A named class is found in front of a parenthesis where it is found. -/
theorem namedClass?_append_close (cs : List Char) :
    (∀ s rest, namedClass? cs = some (s, rest) → rest <:+ cs) ∧
      namedClass? (cs ++ ')' :: behind) =
        (namedClass? cs).map fun (s, rest) => (s, rest ++ ')' :: behind) := by
  cases cs with
  | nil => exact ⟨by simp [namedClass?], rfl⟩
  | cons c cs =>
    by_cases hc : c = ':'
    · subst hc
      obtain ⟨hmark, hmark'⟩ := complMark_append_close cs
      obtain ⟨hsuffix, hclose⟩ := namedFrom?_append_close (complMark cs).1 (complMark cs).2
      rw [List.cons_append, namedClass?_colon, namedClass?_colon, hmark']
      exact ⟨fun s rest h => ((hsuffix s rest h).trans hmark).trans (List.suffix_cons _ _), hclose⟩
    · simp [namedClass?, hc]

theorem closable_classItem : Closable behind classItem := by
  intro cs a rest h
  unfold classItem at h
  split at h
  · cases h
  · next cs =>
    obtain ⟨hsuffix, hclose⟩ := closable_escape? h
    exact ⟨hsuffix.trans (List.suffix_cons _ _), hclose⟩
  · next c cs hc =>
    obtain ⟨rfl, rfl⟩ := Prod.mk.inj (Except.ok.inj h)
    refine ⟨List.suffix_cons _ _, ?_⟩
    rw [List.cons_append, classItem]
    exact hc

/-- Whether a text goes on with a hyphen that makes a range. -/
def beginsRange : List Char → Bool
  | '-' :: ']' :: _ => false
  | '-' :: '-' :: _ => false
  | '-' :: _ => true
  | _ => false

theorem beginsRange_append_close (cs : List Char) :
    beginsRange (cs ++ ')' :: behind) = beginsRange cs := by
  match cs with
  | [] => rfl
  | [c] =>
    by_cases hc : c = '-'
    · rw [hc]
      rfl
    · simp [beginsRange, hc]
  | c :: d :: cs =>
    by_cases hc : c = '-'
    · by_cases hd : d = ']' ∨ d = '-'
      · rcases hd with rfl | rfl <;> simp [beginsRange, hc]
      · rw [not_or] at hd
        simp [beginsRange, hc, hd.1, hd.2]
    · simp [beginsRange, hc]

theorem closable_classRange : Closable behind classRange := by
  intro cs a rest h
  unfold classRange at h ⊢
  obtain ⟨⟨first, after⟩, hfirst, h⟩ := Except.bind_eq_ok h
  obtain ⟨hsuffix, hclose⟩ := closable_classItem hfirst
  rw [hclose]
  change (if beginsRange after = true then _ else _) = _ at h
  change _ ∧ (if beginsRange (after ++ ')' :: behind) = true then _ else _) = _
  rw [beginsRange_append_close]
  split at h
  · next hrange =>
    rw [if_pos hrange]
    obtain ⟨⟨last, after'⟩, hlast, h⟩ := Except.bind_eq_ok h
    cases after with
    | nil => cases hrange
    | cons x after =>
      obtain ⟨hsuffix', hclose'⟩ := closable_classItem hlast
      have hrest : after' <:+ cs := (hsuffix'.trans (List.suffix_cons x after)).trans hsuffix
      rw [show (x :: after ++ ')' :: behind).drop 1 = (x :: after).drop 1 ++ ')' :: behind from rfl,
        hclose']
      cases first with
      | set _ | look _ => cases last <;> cases h
      | char x =>
        cases last with
        | set _ | look _ => cases h
        | char y =>
          change (if x ≤ y then _ else _) = _ at h
          change _ ∧ (if x ≤ y then _ else _) = _
          split at h
          · next hle =>
            obtain ⟨rfl, rfl⟩ := Prod.mk.inj (Except.ok.inj h)
            exact ⟨hrest, if_pos hle⟩
          · cases h
  · next hrange =>
    rw [if_neg hrange]
    match first, h with
    | .char x, h | .set s, h =>
      obtain ⟨rfl, rfl⟩ := Prod.mk.inj (Except.ok.inj h)
      exact ⟨hsuffix, rfl⟩

/-- More steps than a class needs change nothing. -/
theorem classRest_append_close {n m : Nat} (hnm : n ≤ m) {outer : List ClassFrame}
    {f : ClassFrame} {cs rest : List Char} {s : Nested CharClass}
    (h : classRest n outer f cs = .ok (s, rest)) :
    rest <:+ cs ∧ classRest m outer f (cs ++ ')' :: behind) = .ok (s, rest ++ ')' :: behind) := by
  induction n generalizing m outer f cs with
  | zero => cases h
  | succ n ih =>
    obtain ⟨m, rfl⟩ : ∃ k, m = k + 1 := ⟨m - 1, by omega⟩
    have hnm : n ≤ m := Nat.le_of_succ_le_succ hnm
    unfold classRest at h
    split at h
    · cases h
    · next after =>
      obtain ⟨hnamed, hnamed'⟩ := namedClass?_append_close after
      rw [List.cons_append, classRest, hnamed']
      split at h
      · next s after' hsome =>
        rw [hsome]
        obtain ⟨hsuffix, hclose⟩ := ih hnm h
        exact ⟨(hsuffix.trans (hnamed _ _ hsome)).trans (List.suffix_cons _ _), hclose⟩
      · next hnone =>
        rw [hnone]
        obtain ⟨hopen, hopen'⟩ := openClass_append_close after
        obtain ⟨hsuffix, hclose⟩ := ih hnm h
        dsimp only [Option.map]
        rw [hopen']
        exact ⟨(hsuffix.trans hopen).trans (List.suffix_cons _ _), hclose⟩
    · next after =>
      cases outer with
      | nil =>
        obtain ⟨rfl, rfl⟩ := Prod.mk.inj (Except.ok.inj h)
        exact ⟨List.suffix_cons _ _, rfl⟩
      | cons g outer =>
        obtain ⟨hsuffix, hclose⟩ := ih hnm h
        exact ⟨hsuffix.trans (List.suffix_cons _ _), hclose⟩
    iterate 3
      obtain ⟨hsuffix, hclose⟩ := ih hnm h
      exact ⟨(hsuffix.trans (List.suffix_cons _ _)).trans (List.suffix_cons _ _), hclose⟩
    · next c hnil hopen hclosed hinter hdiff hsymm =>
      obtain ⟨⟨t, after⟩, hrange, h⟩ := Except.bind_eq_ok h
      obtain ⟨hrange', hclose'⟩ := closable_classRange hrange
      obtain ⟨hsuffix, hclose⟩ := ih hnm h
      refine ⟨hsuffix.trans hrange', ?_⟩
      rw [classRest, hclose']
      · exact hclose
      · exact List.append_ne_nil_of_right_ne_nil cs (List.cons_ne_nil _ _)
      · exact append_close_ne (w := ['[']) (by decide) hopen
      · exact append_close_ne (w := [']']) (by decide) hclosed
      · exact append_close_ne (w := ['&', '&']) (by decide) hinter
      · exact append_close_ne (w := ['-', '-']) (by decide) hdiff
      · exact append_close_ne (w := ['~', '~']) (by decide) hsymm

theorem closable_charClass : Closable behind charClass := by
  intro cs s rest h
  obtain ⟨hopen, hopen'⟩ := openClass_append_close cs
  have hle : (openClass cs).2.length + 1 ≤ ((openClass cs).2 ++ ')' :: behind).length + 1 := by
    rw [List.length_append]
    exact Nat.succ_le_succ (Nat.le_add_right _ _)
  obtain ⟨hsuffix, hclose⟩ := classRest_append_close hle h
  refine ⟨hsuffix.trans hopen, ?_⟩
  rw [charClass, hopen']
  exact hclose

/-! ### Repetitions and groups -/

theorem repetition_append_close (min : Nat) (max : Option Nat) (cs : List Char) :
    (repetition min max cs).2 <:+ cs ∧
      repetition min max (cs ++ ')' :: behind) =
        ((repetition min max cs).1, (repetition min max cs).2 ++ ')' :: behind) := by
  cases cs with
  | nil => exact ⟨List.suffix_refl _, rfl⟩
  | cons c cs =>
    by_cases hc : c = '?'
    · subst hc
      exact ⟨List.suffix_cons _ _, rfl⟩
    · simp [repetition, hc]

theorem closable_countNumber : Closable behind countNumber := by
  intro cs n rest h
  have hblank (cs : List Char) : (cs ++ ')' :: behind).dropWhile isBlank =
      cs.dropWhile isBlank ++ ')' :: behind := dropWhile_append_close (by decide) cs
  have hdigits (cs : List Char) : (cs ++ ')' :: behind).dropWhile Char.isDigit =
      cs.dropWhile Char.isDigit ++ ')' :: behind := dropWhile_append_close (by decide) cs
  unfold countNumber at h ⊢
  dsimp only at h ⊢
  rw [hblank, takeWhile_append_close (by decide), hdigits, hblank]
  split at h
  · cases h
  · next hcount =>
    obtain ⟨rfl, rfl⟩ := Prod.mk.inj (Except.ok.inj h)
    rw [if_neg hcount]
    refine ⟨?_, rfl⟩
    exact ((List.dropWhile_suffix _).trans (List.dropWhile_suffix _)).trans
      (List.dropWhile_suffix _)

theorem closable_counted : Closable behind counted := by
  intro cs l rest h
  unfold counted at h ⊢
  obtain ⟨⟨min, after⟩, hmin, h⟩ := Except.bind_eq_ok h
  obtain ⟨hsuffix, hclose⟩ := closable_countNumber hmin
  rw [hclose]
  dsimp only [bind, Except.bind] at h ⊢
  have hrepeat {max : Option Nat} {more : List Char} (hmore : more <:+ cs)
      (h : Except.ok (repetition min max more) = (.ok (l, rest) : Piece Lexeme)) :
      rest <:+ cs ∧
        (.ok (repetition min max (more ++ ')' :: behind)) : Piece Lexeme) =
          .ok (l, rest ++ ')' :: behind) := by
    obtain ⟨hsuffix, hclose⟩ := repetition_append_close min max more
    rw [Except.ok.inj h] at hsuffix hclose
    exact ⟨hsuffix.trans hmore, congrArg Except.ok hclose⟩
  split at h
  · next more => exact hrepeat ((List.suffix_cons _ _).trans hsuffix) h
  · next more =>
    exact hrepeat (((List.suffix_cons _ _).trans (List.suffix_cons _ _)).trans hsuffix) h
  · next more hmore =>
    obtain ⟨⟨max, after'⟩, hmax, h⟩ := Except.bind_eq_ok h
    obtain ⟨hsuffix', hclose'⟩ := closable_countNumber hmax
    dsimp only at h
    split at h
    · next more' =>
      split at h
      · next hle =>
        obtain ⟨hrest, hrest'⟩ := hrepeat ((((List.suffix_cons _ _).trans hsuffix').trans
          (List.suffix_cons _ _)).trans hsuffix) h
        refine ⟨hrest, ?_⟩
        rw [List.cons_append]
        split
        · next heq => simp at heq
        · next more'' heq =>
          exact absurd (List.cons.inj heq).2 (append_close_ne (w := ['\x7d']) (by decide) hmore _)
        · next more'' _ heq =>
          obtain rfl := (List.cons.inj heq).2
          rw [hclose', ← hrest', List.cons_append]
          exact if_pos hle
        · next hcomma => exact absurd rfl (hcomma _)
      · cases h
    · cases h
  · cases h

theorem closable_groupName : Closable behind groupName := by
  intro cs l rest h
  unfold groupName at h ⊢
  dsimp only at h ⊢
  split at h
  · next c more x after hname hdrop =>
    obtain ⟨hdrop', htake⟩ := dropWhile_append_of_cons hdrop (')' :: behind)
    rw [hdrop', htake]
    split at h
    · next hchars =>
      obtain ⟨rfl, rfl⟩ := Prod.mk.inj (Except.ok.inj h)
      rw [hname]
      exact ⟨suffix_of_dropWhile hdrop, if_pos hchars⟩
    · cases h
  · cases h

/-- Flags and the mark that ends them. -/
def flagGroup (cs : List Char) : Piece Lexeme :=
  let isEnd := fun c => c == ':' || c == ')'
  let letters := cs.takeWhile (fun c => !isEnd c)
  match cs.dropWhile (fun c => !isEnd c) with
  | ':' :: after => (flagList letters).map fun change => (.openPlain change, after)
  | ')' :: after =>
    if letters.isEmpty then .error .nothingToRepeat
    else (flagList letters).map fun change => (.flags change, after)
  | _ => .error .unclosedGroup

theorem closable_flagGroup : Closable behind flagGroup := by
  intro cs l rest h
  unfold flagGroup at h ⊢
  dsimp only at h ⊢
  split at h
  · next after hdrop =>
    obtain ⟨hdrop', htake⟩ := dropWhile_append_of_cons hdrop (')' :: behind)
    rw [hdrop', htake]
    obtain ⟨change, hchange, h⟩ := Except.map_eq_ok h
    obtain ⟨rfl, rfl⟩ := Prod.mk.inj h
    exact ⟨suffix_of_dropWhile hdrop, by rw [hchange]; rfl⟩
  · next after hdrop =>
    obtain ⟨hdrop', htake⟩ := dropWhile_append_of_cons hdrop (')' :: behind)
    rw [hdrop', htake]
    split at h
    · cases h
    · next hletters =>
      obtain ⟨change, hchange, h⟩ := Except.map_eq_ok h
      obtain ⟨rfl, rfl⟩ := Prod.mk.inj h
      exact ⟨suffix_of_dropWhile hdrop, (if_neg hletters).trans (by rw [hchange]; rfl)⟩
  · cases h

theorem closable_groupStart : Closable behind groupStart := by
  intro cs l rest h
  unfold groupStart at h
  split at h
  · next after =>
    obtain ⟨hsuffix, hclose⟩ := closable_groupName h
    refine ⟨?_, hclose⟩
    exact hsuffix.trans ⟨['?', 'P', '<'], rfl⟩
  iterate 4 cases h
  · next after hassert hexclude =>
    obtain ⟨hsuffix, hclose⟩ := closable_groupName h
    refine ⟨hsuffix.trans ⟨['?', '<'], rfl⟩, ?_⟩
    rw [List.cons_append, List.cons_append, groupStart, hclose]
    · exact append_close_ne (w := ['=']) (by decide) hassert
    · exact append_close_ne (w := ['!']) (by decide) hexclude
  · next after hname heq hne hbehind hbehind' hangle =>
    obtain ⟨hsuffix, hclose⟩ := closable_flagGroup h
    refine ⟨hsuffix.trans (List.suffix_cons _ _), ?_⟩
    rw [List.cons_append, groupStart]
    · exact hclose
    · exact append_close_ne (w := ['P', '<']) (by decide) hname
    · exact append_close_ne (w := ['=']) (by decide) heq
    · exact append_close_ne (w := ['!']) (by decide) hne
    · exact append_close_ne (w := ['<', '=']) (by decide) hbehind
    · exact append_close_ne (w := ['<', '!']) (by decide) hbehind'
    · exact append_close_ne (w := ['<']) (by decide) hangle
  · next hname heq hne hbehind hbehind' hangle hquestion =>
    obtain ⟨rfl, rfl⟩ := Prod.mk.inj (Except.ok.inj h)
    refine ⟨List.suffix_refl _, ?_⟩
    rw [groupStart]
    · exact append_close_ne (w := ['?', 'P', '<']) (by decide) hname
    · exact append_close_ne (w := ['?', '=']) (by decide) heq
    · exact append_close_ne (w := ['?', '!']) (by decide) hne
    · exact append_close_ne (w := ['?', '<', '=']) (by decide) hbehind
    · exact append_close_ne (w := ['?', '<', '!']) (by decide) hbehind'
    · exact append_close_ne (w := ['?', '<']) (by decide) hangle
    · exact append_close_ne (w := ['?']) (by decide) hquestion

/-! ### All lexemes -/

theorem closable_lexeme (c : Char) : Closable behind (lexeme c) := by
  intro cs l rest h
  have hplain {l' : Lexeme} (h : Except.ok (l', cs) = (.ok (l, rest) : Piece Lexeme)) :
      rest <:+ cs ∧
        (.ok (l', cs ++ ')' :: behind) : Piece Lexeme) = .ok (l, rest ++ ')' :: behind) := by
    obtain ⟨rfl, rfl⟩ := Prod.mk.inj (Except.ok.inj h)
    exact ⟨List.suffix_refl _, rfl⟩
  have hrepeat {min : Nat} {max : Option Nat}
      (h : Except.ok (repetition min max cs) = (.ok (l, rest) : Piece Lexeme)) :
      rest <:+ cs ∧
        (.ok (repetition min max (cs ++ ')' :: behind)) : Piece Lexeme) =
          .ok (l, rest ++ ')' :: behind) := by
    obtain ⟨hsuffix, hclose⟩ := repetition_append_close min max cs
    rw [Except.ok.inj h] at hsuffix hclose
    exact ⟨hsuffix, congrArg Except.ok hclose⟩
  unfold lexeme at h ⊢
  split at h
  · exact closable_groupStart h
  · exact hplain h
  · exact hplain h
  · exact closable_charClass.map Lexeme.set h
  · exact hrepeat h
  · exact hrepeat h
  · exact hrepeat h
  · exact closable_counted h
  · exact hplain h
  · exact hplain h
  · exact hplain h
  · cases hescape : escape? cs with
    | error e => rw [hescape] at h; cases h
    | ok piece =>
      obtain ⟨a, after⟩ := piece
      obtain ⟨hsuffix, hclose⟩ := closable_escape? hescape
      rw [hescape] at h
      rw [hclose]
      cases a <;> obtain ⟨rfl, rfl⟩ := Prod.mk.inj (Except.ok.inj h) <;> exact ⟨hsuffix, rfl⟩
  · exact hplain h

/-- Lexemes that are read are read one after another. -/
theorem lexes_of_lexemesAfter {n : Nat} {cs : List Char} (hn : cs.length ≤ n)
    {found ls : List Lexeme} (h : lexemesAfter n found cs = .ok ls) :
    ∃ more, ls = found.reverse ++ more ∧ Lexes cs more := by
  induction n generalizing cs found with
  | zero =>
    obtain rfl := List.length_eq_zero_iff.1 (Nat.le_zero.1 hn)
    exact ⟨[], by simpa [lexemesAfter] using h.symm, .nil⟩
  | succ n ih =>
    cases cs with
    | nil => exact ⟨[], by simpa [lexemesAfter] using h.symm, .nil⟩
    | cons c cs =>
      rw [lexemesAfter] at h
      split at h
      · next l rest hl =>
        have hle := (@closable_lexeme [] c _ _ _ hl).1.length_le
        obtain ⟨more, rfl, hmore⟩ := ih (hle.trans (Nat.le_of_succ_le_succ hn)) h
        exact ⟨l :: more, by simp, .cons hl hle hmore⟩
      · cases h

theorem lexes_of_lexemes {cs : List Char} {ls : List Lexeme} (h : lexemes cs = .ok ls) :
    Lexes cs ls := by
  obtain ⟨more, rfl, hmore⟩ := lexes_of_lexemesAfter (Nat.le_refl _) h
  exact hmore

/-- The lexemes of a text in front of a closing parenthesis and what is behind that. -/
theorem Lexes.append_close {cs : List Char} {ls more : List Lexeme} (h : Lexes cs ls)
    (hbehind : Lexes behind more) : Lexes (cs ++ ')' :: behind) (ls ++ .close :: more) := by
  induction h with
  | nil => exact .cons rfl (Nat.le_refl _) hbehind
  | cons h _ _ ih =>
    obtain ⟨hsuffix, hclose⟩ := closable_lexeme _ h
    refine .cons hclose ?_ ih
    simpa using hsuffix.length_le

end Pattern

end Highlighting
