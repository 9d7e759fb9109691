import Highlighting.Proofs.Grammar.Expansion
import Highlighting.Proofs.Scan.KeptTokens

/-!
# Scans under two token limits

Two scans of one source that differ only in their token limits go in step until the smaller limit
is reached, in the source or in a group at any depth.  From there on the scan with the smaller limit
is truncated, and both scans have found as many tokens as that limit lets through and have those in
common; whatever they add later, this stays so (`Progress.Parted`).

A truncated scan has more tokens than its limit, and a tiling has as many tokens as its text has
characters at most, so a limit that is not below the length of the source truncates nothing.
-/

namespace Highlighting

/-- A truncated scan and one that went on have the tokens in common that a limit lets through. -/
structure Progress.Parted (limit : Nat) (p p' : Progress) : Prop where
  truncated : p.truncated = true
  size : limit ≤ p.tokens.size
  size' : limit < p'.tokens.size
  take : p'.tokens.toList.take limit = p.tokens.toList.take limit

/-- Two scans of one text have found the same and none is truncated, or they have parted. -/
def Progress.Agree (limit : Nat) (p p' : Progress) : Prop :=
  (p'.tokens = p.tokens ∧ p.truncated = false ∧ p'.truncated = false) ∨ p.Parted limit p'

namespace Progress

variable {p p' q q' : Progress} {limit n : Nat} {cs : List Char}

theorem Covers.isPrefix (h : p.Covers n cs q) : p.tokens.toList <+: q.tokens.toList := by
  obtain ⟨ts, hts, -⟩ := h
  exact ⟨ts, hts.symm⟩

/-- A text that is not empty takes a token at least. -/
theorem Covers.size_lt (h : p.Covers n cs q) (hcs : cs ≠ []) : p.tokens.size < q.tokens.size := by
  obtain ⟨ts, hts, htile⟩ := h
  have hlength := congrArg List.length hts
  rw [List.length_append, Array.length_toList, Array.length_toList] at hlength
  cases ts with
  | nil => exact absurd htile hcs
  | cons t ts =>
    rw [List.length_cons] at hlength
    omega

theorem push_isPrefix (p : Progress) (category : Category) (start stop : Nat) :
    p.tokens.toList <+: (p.push category start stop).tokens.toList := by
  unfold push
  split
  · exact ⟨[⟨category, start, stop⟩], by rw [Array.toList_push]⟩
  · exact List.prefix_rfl

/-- What was let through stays so when more tokens are found. -/
theorem take_of_isPrefix (h : p.tokens.toList <+: q.tokens.toList) (hsize : limit ≤ p.tokens.size) :
    q.tokens.toList.take limit = p.tokens.toList.take limit := by
  obtain ⟨ts, hts⟩ := h
  rw [← hts, List.take_append_of_le_length (by rwa [Array.length_toList])]

/-- Scans that have parted stay so when both go on. -/
theorem Parted.grow (h : p.Parted limit p') (hq : p.tokens.toList <+: q.tokens.toList)
    (ht : q.truncated = p.truncated) (hq' : p'.tokens.toList <+: q'.tokens.toList) :
    q.Parted limit q' := by
  have hle := hq.length_le
  have hle' := hq'.length_le
  simp only [Array.length_toList] at hle hle'
  refine ⟨ht.trans h.truncated, Nat.le_trans h.size hle, Nat.lt_of_lt_of_le h.size' hle', ?_⟩
  rw [take_of_isPrefix hq' (Nat.le_of_lt h.size'), take_of_isPrefix hq h.size, h.take]

theorem Agree.push (limit : Nat) : KeptByPush (Agree limit) := by
  rintro p p' category start stop (⟨htokens, ht, ht'⟩ | h)
  · refine .inl ⟨?_, ?_, ?_⟩
    · rw [Progress.push, Progress.push]
      split
      · rw [htokens]
      · exact htokens
    · rw [push_truncated, ht]
    · rw [push_truncated, ht']
  · exact .inr (h.grow (p.push_isPrefix category start stop) (p.push_truncated category start stop)
      (p'.push_isPrefix category start stop))

theorem Agree.congr (h : p.Agree limit p') (hq : q.tokens = p.tokens)
    (hq' : q'.tokens = p'.tokens) (ht : q.truncated = p.truncated)
    (ht' : q'.truncated = p'.truncated) : q.Agree limit q' := by
  rcases h with ⟨htokens, hfalse, hfalse'⟩ | h
  · exact .inl ⟨by rw [hq, hq', htokens], ht.trans hfalse, ht'.trans hfalse'⟩
  · exact .inr ⟨ht.trans h.truncated, hq ▸ h.size, hq' ▸ h.size', by rw [hq, hq', h.take]⟩

/-- Below the limit two scans have found the same. -/
theorem Agree.same (h : p.Agree limit p') (hlt : p.tokens.size < limit) :
    p'.tokens = p.tokens ∧ p.truncated = false ∧ p'.truncated = false := by
  rcases h with h | h
  · exact h
  · have := h.size
    omega

theorem Agree.take (h : p.Agree limit p') :
    p'.tokens.toList.take limit = p.tokens.toList.take limit := by
  rcases h with ⟨htokens, -, -⟩ | h
  · rw [htokens]
  · exact h.take

theorem Agree.size' (h : p.Agree limit p') (hle : limit ≤ p.tokens.size) :
    limit ≤ p'.tokens.size := by
  rcases h with ⟨htokens, -, -⟩ | h
  · rwa [htokens]
  · exact Nat.le_of_lt h.size'

end Progress

theorem Tiles.length_le {n : Nat} {cs : List Char} {ts : List RawToken} (h : Tiles n cs ts) :
    ts.length ≤ cs.length := by
  induction ts generalizing n cs with
  | nil => exact Nat.zero_le _
  | cons t ts ih =>
    obtain ⟨u, v, rfl, hu, -, -, h⟩ := h
    have hpos := List.length_pos_iff.2 hu
    have hle := ih h
    rw [List.length_cons, List.length_append]
    omega

namespace Scanner

section Lockstep

variable {s : Scanner} {limit : Nat} {rescan rescan' : Rescan} {c : Cursor} {p p' : Progress}

/-- The same scanner with another token limit. -/
def withLimit (s : Scanner) (limit : Nat) : Scanner := { s with limit }

/-- One step of both scans goes to one place with one stack, and they still agree behind it. -/
theorem step_agree
    (hrescan : rescan.Related (fun _ _ _ => True) (Progress.Agree s.limit) rescan') (hc : c.Placed)
    (ch : Char) (rest : List Char) (stack : List Nat) (h : p.Agree s.limit p') :
    ((s.withLimit limit).step rescan' c ch rest stack p').1 =
        (s.step rescan c ch rest stack p).1 ∧
      ((s.withLimit limit).step rescan' c ch rest stack p').2.1 =
        (s.step rescan c ch rest stack p).2.1 ∧
      (s.step rescan c ch rest stack p).2.2.Agree s.limit
        ((s.withLimit limit).step rescan' c ch rest stack p').2.2 := by
  have hgrammar : (s.withLimit limit).grammar = s.grammar := rfl
  rw [step, step, hgrammar]
  split
  · next r m hm =>
    have hinside := Grammar.firstMatch?_inside hc hm
    have hemit := emit_related (r := r) (Progress.Agree.push s.limit) hrescan
      (fun _ _ _ _ _ _ _ _ => trivial) hinside h
    exact ⟨rfl, follow_stack _ _ _ _ _ _, hemit.congr (tokens_follow _ _ _ _)
      (tokens_follow _ _ _ _) (truncated_follow _ _ _ _) (truncated_follow _ _ _ _)⟩
  · refine ⟨rfl, rfl, ?_⟩
    have hpush := Progress.Agree.push s.limit p p' .text c.offset (c.offset + ch.utf8Size) h
    refine hpush.congr (tokens_unmatched _ _ _ _ _) (tokens_unmatched _ _ _ _ _) ?_ ?_
    · rw [truncated_unmatched, Progress.push_truncated]
    · rw [truncated_unmatched, Progress.push_truncated]

/-- A scan that its limit stops here parts from one that goes on to the end of the text. -/
theorem truncate_parted {q' : Progress} (h : p.Agree s.limit p') (hsize : s.limit ≤ p.tokens.size)
    (hahead : c.ahead ≠ []) (hcovers : p'.Covers c.offset c.ahead q') :
    (s.truncate c p).Parted s.limit q' := by
  have hstop := truncate_covers s c p
  have hsize' := h.size' hsize
  refine ⟨truncated_truncate s c p, Nat.le_trans hsize (Nat.le_of_lt (hstop.size_lt hahead)),
    Nat.lt_of_le_of_lt hsize' (hcovers.size_lt hahead), ?_⟩
  rw [Progress.take_of_isPrefix hcovers.isPrefix hsize',
    Progress.take_of_isPrefix hstop.isPrefix hsize, h.take]

theorem scanFrom_agree (hle : s.limit ≤ limit)
    (hrescan : rescan.Related (fun _ _ _ => True) (Progress.Agree s.limit) rescan')
    (hcovers : rescan'.Covers) {bound : List Char} (hc : c.Placed)
    (hbound : c.ahead.length ≤ bound.length) (stack : List Nat) (h : p.Agree s.limit p') :
    (s.scanFrom rescan bound c stack p).Agree s.limit
      ((s.withLimit limit).scanFrom rescan' bound c stack p') := by
  induction bound generalizing c stack p p' with
  | nil => exact h
  | cons b bound ih =>
    cases hahead : c.ahead with
    | nil =>
      rw [scanFrom_of_nil hahead, scanFrom_of_nil hahead]
      exact h
    | cons ch rest =>
      by_cases hsize : s.limit ≤ p.tokens.size
      · have hne : c.ahead ≠ [] := by simp [hahead]
        rw [scanFrom_of_cons hahead, if_pos hsize]
        exact .inr (truncate_parted h hsize hne (scanFrom_covers hcovers hc hbound stack p'))
      · -- the two scans have found the same so far, so that the larger limit is not reached either
        obtain ⟨htokens, -, -⟩ := h.same (Nat.lt_of_not_le hsize)
        have hsize' : ¬ (s.withLimit limit).limit ≤ p'.tokens.size := by
          rw [htokens]
          exact fun hlimit => hsize (Nat.le_trans hle hlimit)
        rw [scanFrom_of_cons hahead, scanFrom_of_cons hahead, if_neg hsize, if_neg hsize']
        obtain ⟨u, hu, hto, -⟩ := step_covers (s := s.withLimit limit) hcovers hc hahead stack p'
        obtain ⟨hplace, hstack, hagree⟩ := step_agree hrescan hc ch rest stack h
        rw [hplace] at hto ⊢
        rw [hstack]
        refine ih (hto.placed hc) ?_ _ hagree
        have hlength := congrArg List.length hto.ahead
        have hpos := List.length_pos_iff.2 hu
        rw [List.length_append] at hlength
        rw [List.length_cons] at hbound
        omega

theorem scan_agree (hle : s.limit ≤ limit) (levels : Nat) :
    Rescan.Related (fun _ _ _ => True) (Progress.Agree s.limit) (s.scan levels)
      ((s.withLimit limit).scan levels) := by
  induction levels with
  | zero =>
    intro state text offset p p' _ h
    exact scanFrom_agree hle (Rescan.related_plain (Progress.Agree.push s.limit) _)
      Rescan.covers_plain (Cursor.placed_start text offset) (Nat.le_refl _) [state] h
  | succ levels ih =>
    intro state text offset p p' _ h
    exact scanFrom_agree hle ih (scan_covers _ levels) (Cursor.placed_start text offset)
      (Nat.le_refl _) [state] h

end Lockstep

variable (s : Scanner) (source : List Char)

theorem run_agree {limit : Nat} (hle : s.limit ≤ limit) :
    (s.run source).Agree s.limit ((s.withLimit limit).run source) :=
  scan_agree hle _ _ _ _ _ _ trivial (.inl ⟨rfl, rfl, rfl⟩)

/-- A truncated scan has more tokens than its limit. -/
theorem limit_lt_of_truncated (h : (s.run source).truncated = true) :
    s.limit < (s.run source).tokens.size := by
  rcases s.run_agree source (Nat.le_refl s.limit) with ⟨-, hfalse, -⟩ | hparted
  · rw [h] at hfalse
    cases hfalse
  · exact hparted.size'

/-- No source has more tokens than characters, so a limit of that many truncates nothing. -/
theorem run_truncated_of_length_le (h : source.length ≤ s.limit) :
    (s.run source).truncated = false := by
  rw [← Bool.not_eq_true]
  intro htruncated
  have hlt := s.limit_lt_of_truncated source htruncated
  have hle := (s.run_tiles source).length_le
  rw [Array.length_toList] at hle
  omega

/-- A limit that is not below the number of tokens of a scan without truncation truncates
nothing. -/
theorem run_truncated_of_size_le {limit : Nat}
    (hfull : ((s.withLimit limit).run source).truncated = false)
    (hsize : ((s.withLimit limit).run source).tokens.size ≤ s.limit) :
    (s.run source).truncated = false := by
  rcases Nat.le_total s.limit limit with hle | hle
  · rcases s.run_agree source hle with ⟨-, hfalse, -⟩ | hparted
    · exact hfalse
    · have := hparted.size'
      omega
  · rcases (s.withLimit limit).run_agree source hle with ⟨-, -, hfalse⟩ | hparted
    · exact hfalse
    · rw [hparted.truncated] at hfull
      cases hfull

end Scanner

namespace Grammar

/-- Of two runs that differ in their token limits only, the first has the tokens of the second up to
its own limit, is truncated if the second is, and is equal to it unless it is truncated.  A limit as
large as the source truncates nothing, and neither does one that is as large as the number of tokens
of a scan that is not truncated. -/
theorem tokenize_take_tokenLimit (g : Grammar) (prefs : LexicalPreferences)
    (hmerge : prefs.mergeAdjacent = false) (source : String) (max₁ max₂ : Nat)
    (hle : { prefs with maxTokens := max₁ }.tokenLimit ≤
      { prefs with maxTokens := max₂ }.tokenLimit) :
    let limit := { prefs with maxTokens := max₁ }.tokenLimit
    let run₁ := (g.tokenize { prefs with maxTokens := max₁ } source).value
    let run₂ := (g.tokenize { prefs with maxTokens := max₂ } source).value
    run₁.tokens.take limit = run₂.tokens.take limit ∧
      (run₂.metrics.truncated = true → run₁.metrics.truncated = true) ∧
      (run₁.metrics.truncated = false → run₁.tokens = run₂.tokens) ∧
      ∀ unlimited : Nat,
        let full := Scanner.run ⟨g, unlimited, prefs.logUnmatched⟩ source.toList
        (source.toList.length ≤ unlimited → full.truncated = false) ∧
          (full.truncated = false → full.tokens.size ≤ limit →
            run₁.metrics.truncated = false) := by
  let s : Scanner := ⟨g, { prefs with maxTokens := max₁ }.tokenLimit, prefs.logUnmatched⟩
  have hagree := s.run_agree source.toList hle
  dsimp only
  rw [tokenize_tokens_eq_map g { prefs with maxTokens := max₁ } hmerge,
    tokenize_tokens_eq_map g { prefs with maxTokens := max₂ } hmerge,
    ← List.map_take, ← List.map_take]
  refine ⟨?_, fun htruncated => ?_, fun hfalse => ?_, fun unlimited =>
    ⟨fun hlength => ?_, fun hfull hsize => ?_⟩⟩
  · exact congrArg (List.map _) hagree.take.symm
  · rcases hagree with ⟨-, -, hfalse⟩ | hparted
    · exact absurd htruncated (Bool.eq_false_iff.1 hfalse)
    · exact hparted.truncated
  · rcases hagree with ⟨htokens, -, -⟩ | hparted
    · exact congrArg (fun tokens : Array RawToken => tokens.toList.map _) htokens.symm
    · exact absurd hparted.truncated (Bool.eq_false_iff.1 hfalse)
  · exact (s.withLimit unlimited).run_truncated_of_length_le source.toList hlength
  · exact s.run_truncated_of_size_le source.toList hfull hsize

/-- Three lines under the limits 1 and 4, with a grammar that knows line ends only. -/
theorem tokenize_take_tokenLimit_lines :
    let lines : Definition := ⟨"lines", [(rootState, [.rule (.token "\n" .whitespace)])]⟩
    ∃ g, lines.build.value = .ok g ∧
      let run₁ := (g.tokenize { mergeAdjacent := false, maxTokens := 1 } "a\nb\nc").value
      let run₂ := (g.tokenize { mergeAdjacent := false, maxTokens := 4 } "a\nb\nc").value
      run₁.tokens.take 1 = run₂.tokens.take 1 ∧ run₁.metrics.truncated = true := by
  intro lines
  have hcut : lines.build.value.toOption.map (fun g =>
      (g.tokenize { mergeAdjacent := false, maxTokens := 4 } "a\nb\nc").value.metrics.truncated) =
        some true := by
    decide +kernel
  obtain ⟨g, hg, hcut⟩ := Option.map_eq_some_iff.1 hcut
  have hruns := tokenize_take_tokenLimit g { mergeAdjacent := false } rfl "a\nb\nc" 1 4 (by decide)
  exact ⟨g, Except.eq_ok_of_toOption hg, hruns.1, hruns.2.1 hcut⟩

end Grammar

end Highlighting
