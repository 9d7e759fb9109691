import Highlighting.Proofs.Language.StateStacks
import Highlighting.Proofs.Scan.RuleEnds

/-!
# The rules of preprocessor lines

How the rules of a preprocessor line treat line breaks, as far as it is computed from them
(`CFamily.keepsLines`).  A line is left by a match of a line feed alone.  A match with a backslash
in it, behind which there is a line break, has that line break in it, too, unless it is a comment up
to the end of the line or the backslash is escaped by another one (`CFamily.escapes_of_keepsEscapes`):
an escape prefers a line break to a single character, and a comment takes all but line feeds.
-/

namespace Highlighting

/-- Line breaks: a line feed, alone or behind a carriage return. -/
def lineBreaks : List (List Char) := [['\n'], ['\r', '\n']]

namespace Route

/-- All characters but the line feed. -/
def notFeed : CharSet := ⟨[(0, 9), (11, 0x10ffff)]⟩

/-- A route that is taken if it leads somewhere. -/
def perhaps (mark : Nat) (p : Route) : Route := .seq (.fork (.seq p .done) .done) (.meet mark)

/-- A line break. -/
def lineBreak : Route := .seq (perhaps 1 (.text ['\r'])) (.text ['\n'])

/-- A backslash with the line break or the character behind it. -/
def escape : Route :=
  .seq (.text ['\\']) (perhaps 3 (.seq (.fork lineBreak (.one notFeed)) (.meet 2)))

/-- Whether a route reads a comment up to the end of its line. -/
def isLineComment : Route → Bool
  | .seq (.text ['/', '/']) (.star _ (.one s) true) => s == notFeed
  | _ => false

variable {p : Route} {c d : Cursor} {met : Set Nat} {caps : Captures} {found : Captures × Cursor}
  {brk rest : List Char}

/-- An escape is a backslash, alone or with one character or a line break. -/
theorem exists_escaped (h : escape.Leads c d) :
    ∃ w, c.Reads ('\\' :: w) d ∧ (w = [] ∨ (∃ ch, w = [ch]) ∨ w = ['\r', '\n']) := by
  obtain ⟨e, hback, e', hrest, rfl⟩ := h
  rcases hrest with ⟨x, ⟨y, hpair, rfl⟩, rfl⟩ | rfl
  · rcases hpair with ⟨z, hreturn, hfeed⟩ | ⟨ch, -, hch⟩
    · obtain ⟨z', hreturn, rfl⟩ := hreturn
      rcases hreturn with ⟨z'', hreturn, rfl⟩ | rfl
      · exact ⟨['\r', '\n'], Cursor.Reads.trans hback (Cursor.Reads.trans hreturn hfeed),
          .inr (.inr rfl)⟩
      · exact ⟨['\n'], Cursor.Reads.trans hback hfeed, .inr (.inl ⟨_, rfl⟩)⟩
    · exact ⟨[ch], Cursor.Reads.trans hback hch, .inr (.inl ⟨ch, rfl⟩)⟩
  · exact ⟨[], hback, .inl rfl⟩

/-- An escape takes a line break behind its backslash. -/
theorem Tries.escape_reads (h : Tries met [escape] c caps (some found)) (hbrk : brk ∈ lineBreaks)
    (hahead : c.ahead = '\\' :: (brk ++ rest)) : c.Reads ('\\' :: brk) found.2 := by
  have h32 : (3 : Nat) ∉ insert 2 (∅ : Set Nat) := by simp
  simp only [lineBreaks, List.mem_cons, List.not_mem_nil, or_false] at hbrk
  rcases hbrk with rfl | rfl
  · -- without a carriage return the line feed is taken at once
    have htries : Tries met [escape] c caps
        (some (caps, (c.past '\\' ('\n' :: rest)).past '\n' rest)) := by
      refine .seq (.text hahead (.seq (.first (.seq (.seq (.first (.seq (.seq ?_))))))))
      refine .second (.seq (.textFails ?_)) (.done (.meet (Set.notMem_empty 1) ?_))
      · rintro x xs ahead hx hnext
        obtain ⟨rfl, -⟩ := List.cons.inj hx
        exact absurd (List.cons.inj hnext).1 (by decide)
      · exact .text rfl (.meet (Set.notMem_empty 2) (.done (.meet h32 .ended)))
    obtain rfl := Option.some.inj (h.unique htries)
    exact ⟨_, hahead, _, rfl, rfl⟩
  · have htries : Tries met [escape] c caps
        (some (caps, ((c.past '\\' ('\r' :: '\n' :: rest)).past '\r' ('\n' :: rest)).past
          '\n' rest)) := by
      refine .seq (.text hahead (.seq (.first (.seq (.seq (.first (.seq (.seq ?_))))))))
      refine .first (.seq (.text rfl (.done (.meet (Set.notMem_empty 1) ?_))))
      exact .text rfl (.meet (Set.notMem_empty 2) (.done (.meet h32 .ended)))
    obtain rfl := Option.some.inj (h.unique htries)
    exact ⟨_, hahead, _, rfl, _, rfl, rfl⟩

theorem eq_feed_of_not_meets {ch : Char} (h : ¬ CharSet.Meets ch.toNat notFeed.ranges) :
    ch = '\n' := by
  have hvalid : ch.toNat < 0x110000 := by
    have hch : ch.val.toNat < 0x110000 := ch.valid.elim (fun h => by omega) And.right
    exact hch
  have hten : ch.toNat = 10 := by
    by_contra hne
    refine h ?_
    rcases Nat.lt_or_gt_of_ne hne with hlt | hgt
    · exact ⟨(0, 9), by simp [notFeed], Nat.zero_le _, Nat.le_of_lt_succ hlt⟩
    · exact ⟨(11, 0x10ffff), by simp [notFeed], hgt, Nat.le_of_lt_succ hvalid⟩
  exact Char.toNat_inj.1 hten

/-- A comment goes on up to a line feed or the end of the text. -/
theorem Tries.comment_reads (h : Tries met [p] c caps (some found)) (hp : p.isLineComment = true) :
    ∃ u, c.Reads ('/' :: '/' :: u) found.2 ∧ '\n' ∉ u ∧
      ∀ ch ahead, found.2.ahead = ch :: ahead → ch = '\n' := by
  unfold isLineComment at hp
  split at hp
  case h_2 => cases hp
  next mark s =>
  obtain rfl := beq_iff_eq.1 hp
  cases h with
  | seq h =>
    obtain ⟨met', e, caps', hslashes, h, -⟩ := h.behind
    obtain ⟨met'', d, caps'', hrounds, hended, hmore⟩ := h.exhausts
    cases hended
    obtain ⟨u, hu, hall⟩ := reads_rounds hrounds
    refine ⟨u, Cursor.Reads.trans hslashes hu, fun hmem => ?_, fun ch ahead hahead => ?_⟩
    · exact absurd (hall _ hmem) (by decide)
    · exact eq_feed_of_not_meets (hmore ch ahead hahead)

end Route

namespace CFamily

/-- Whether a rule leaves a line behind a line feed, or takes no line feed first and none behind a
carriage return that it takes first. -/
def leavesLine (r : CompiledRule) : Bool := r.body?.any fun p =>
  (r.transition == .pop && p.spellings? == some [['\n']]) ||
    (r.transition == .stay && p.firstOff [(10, 10)] &&
      (p.avoids ['\n'] || p.firstOff [(13, 13)]))

/-- Whether a rule has no backslash without what is behind it, or is that of escapes or of
comments up to the end of the line. -/
def keepsEscapes (r : CompiledRule) : Bool := r.body?.any fun p =>
  p.avoids ['\\'] || p.lastOff [(13, 13), (92, 92)] ||
    (r.isComplete && (p == .escape || p.isLineComment))

/-- What is computed of the rules of preprocessor lines. -/
def keepsLines (g : Grammar) : Bool :=
  g.passIn "macro" (·.all fun r => leavesLine r && keepsEscapes r)

variable {r : CompiledRule} {c : Cursor} {m : RuleMatch} {u v w brk : List Char}

/-- In a preprocessor line a match is a line feed and leaves the line, or it does not begin with a
line feed and stays in the line. -/
theorem transition_of_leavesLine (h : leavesLine r = true) (hc : c.Placed)
    (hm : r.matchAt? c = some m) (hu : c.Reads u m.stop) :
    (r.transition = .pop ∧ u = ['\n']) ∨
      (r.transition = .stay ∧ u.head? ≠ some '\n' ∧ (u.head? = some '\r' → '\n' ∉ u)) := by
  obtain ⟨p, hp, h⟩ := (Option.any_eq_true _ _).1 h
  have hleads := CompiledRule.leads_of_body? hp hc hm
  simp only [Bool.or_eq_true, Bool.and_eq_true, beq_iff_eq] at h
  rcases h with ⟨hpop, hspells⟩ | ⟨⟨hstay, hfirst⟩, hreturn⟩
  · exact .inl ⟨hpop, List.mem_singleton.1 (hleads.mem_spellings hspells hu)⟩
  · refine .inr ⟨hstay, fun hhead => ?_, fun hhead hmem => ?_⟩
    · exact absurd (hleads.startsOff hfirst hu _ hhead) (by decide)
    · rcases hreturn with havoids | hreturn
      · exact hleads.not_mem_of_avoids havoids hu hmem
      · exact absurd (hleads.startsOff hreturn hu _ hhead) (by decide)

theorem isPrefix_of_endsOff (hu : Route.EndsOff [(13, 13), (92, 92)] (v ++ '\\' :: w))
    (hbrk : brk ∈ lineBreaks) {ahead : List Char} (hahead : brk <+: w ++ ahead) : brk <+: w := by
  simp only [lineBreaks, List.mem_cons, List.not_mem_nil, or_false] at hbrk
  obtain ⟨rest, hrest⟩ := hahead
  cases w with
  | nil => exact absurd (hu '\\' (by simp)) (by decide)
  | cons ch w =>
    rcases hbrk with rfl | rfl
    · obtain ⟨rfl, -⟩ := List.cons.inj hrest
      exact ⟨w, rfl⟩
    · obtain rfl : '\r' = ch := (List.cons.inj hrest).1
      cases w with
      | nil => exact absurd (hu '\r' (by simp)) (by decide)
      | cons ch w =>
        obtain rfl : '\n' = ch := (List.cons.inj (List.cons.inj hrest).2).1
        exact ⟨w, rfl⟩

/-- What is left of a line break behind a text without line feeds and in front of a line feed. -/
theorem append_eq_of_isPrefix (hbrk : brk ∈ lineBreaks) (hw : '\n' ∉ w) {ahead : List Char}
    (hnext : ∀ ch rest, ahead = ch :: rest → ch = '\n') (hahead : brk <+: w ++ ahead) :
    w ++ ['\n'] = brk := by
  simp only [lineBreaks, List.mem_cons, List.not_mem_nil, or_false] at hbrk
  obtain ⟨rest, hrest⟩ := hahead
  cases w with
  | nil =>
    rcases hbrk with rfl | rfl
    · rfl
    · exact absurd (hnext '\r' _ hrest.symm) (by decide)
  | cons ch w =>
    rcases hbrk with rfl | rfl
    · exact absurd (List.cons.inj hrest).1 fun heq => hw (heq ▸ List.mem_cons_self)
    · obtain rfl : '\r' = ch := (List.cons.inj hrest).1
      cases w with
      | nil => rfl
      | cons ch w =>
        obtain rfl : '\n' = ch := (List.cons.inj (List.cons.inj hrest).2).1
        exact absurd (by simp) hw

/-- A match with a backslash in it, behind which there is a line break, has the line break in it,
unless it is a comment up to the line feed or the backslash is escaped itself. -/
theorem escapes_of_keepsEscapes (h : keepsEscapes r = true) (hc : c.Placed)
    (hm : r.matchAt? c = some m) (hread : c.Reads (v ++ '\\' :: w) m.stop)
    (hbrk : brk ∈ lineBreaks) (hahead : brk <+: w ++ m.stop.ahead) :
    brk <+: w ∨ (['/', '/'] <+: v ∧ '\n' ∉ v ++ w ∧ w ++ ['\n'] = brk) ∨ (v = ['\\'] ∧ w = []) := by
  obtain ⟨p, hp, h⟩ := (Option.any_eq_true _ _).1 h
  have hleads := CompiledRule.leads_of_body? hp hc hm
  simp only [Bool.or_eq_true, Bool.and_eq_true, beq_iff_eq] at h
  rcases h with (havoids | hlast) | ⟨hcomplete, hroute⟩
  · exact absurd (by simp) (hleads.not_mem_of_avoids havoids hread)
  · exact .inl (isPrefix_of_endsOff (hleads.endsOff hlast hread) hbrk hahead)
  obtain ⟨met, caps, caps', htries⟩ := CompiledRule.tries_of_matchAt? hcomplete hp hc hm
  rcases hroute with rfl | hcomment
  · obtain ⟨w', hread', hshape⟩ := Route.exists_escaped hleads
    have heq := hread.text_unique hread'
    cases v with
    | nil =>
      left
      obtain ⟨rest, hrest⟩ := hahead
      have hahead : c.ahead = '\\' :: (brk ++ rest) := by
        rw [hread.ahead, hrest]
        rfl
      have hsame := hread.text_unique (htries.escape_reads hbrk hahead)
      obtain rfl := (List.cons.inj hsame).2
      exact List.prefix_refl _
    | cons x v =>
      right; right
      obtain ⟨rfl, hrest⟩ : x = '\\' ∧ v ++ '\\' :: w = w' := List.cons.inj heq
      rcases hshape with rfl | ⟨ch, rfl⟩ | rfl
      · simp at hrest
      · cases v with
        | nil => exact ⟨rfl, (List.cons.inj hrest).2⟩
        | cons y v => simp at hrest
      · have hmem : '\\' ∈ ['\r', '\n'] := by rw [← hrest]; simp
        exact absurd hmem (by decide)
  · right; left
    obtain ⟨u, hread', hfeed, hnext⟩ := htries.comment_reads hcomment
    have heq := hread.text_unique hread'
    obtain ⟨v', rfl⟩ : ['/', '/'] <+: v := by
      match v with
      | [] => exact absurd (List.cons.inj heq).1 (by decide)
      | [x] => exact absurd (List.cons.inj (List.cons.inj heq).2).1 (by decide)
      | x :: y :: v' =>
        obtain rfl : x = '/' := (List.cons.inj heq).1
        obtain rfl : y = '/' := (List.cons.inj (List.cons.inj heq).2).1
        exact ⟨v', rfl⟩
    obtain rfl : v' ++ '\\' :: w = u := by simpa using heq
    simp only [List.mem_append, List.mem_cons, not_or] at hfeed
    refine ⟨List.prefix_append _ _, ?_, append_eq_of_isPrefix hbrk hfeed.2.2 hnext hahead⟩
    simp only [List.mem_append, List.mem_cons, List.not_mem_nil, not_or]
    exact ⟨⟨⟨by decide, by decide, by simp⟩, hfeed.1⟩, hfeed.2.2⟩

end CFamily

end Highlighting
