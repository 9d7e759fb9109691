import Highlighting.Proofs.Pattern.Lockstep
import Highlighting.Proofs.Pattern.Shifting
import Highlighting.Proofs.Pattern.Wrapping
import Highlighting.Proofs.Scan.RuleMatch

/-!
# Matches in context

A rule is matched by one of two patterns on a text that begins at the cursor or one character before
it.  Its match is the one that the declared pattern itself has at the cursor in the whole text
(`CompiledRule.matchAt?_eq_matchFrom?`): one character of context is all that a condition looks at,
and the condition and the set in front of the declared pattern let one thread through, at the
cursor.
-/

namespace Highlighting

namespace Matcher

variable {m m' : Matcher} {c d e : Cursor} {q : Route} {caps : Captures} {sight : Bool}
  {marks : Nat} {b : Char} {wantsGroups : Bool}

/-! ### Matchers of the patterns of rules -/

/-- A matcher that asks for the start of the text, with the first mark, before it does what another
one does. -/
structure Fronts (m m' : Matcher) : Prop where
  shifted : m.Shifted 1 m'
  first : m'.marks.testBit 0 = true
  groups : m'.groups = m.groups
  anchored : m'.anchored = true
  idleLook : m'.idleLook = m.idleLook
  asksForWords : m'.asksForWords = m.asksForWords

/-- The matcher of a pattern for the start of a text. -/
theorem fronts_textStart (p : Pattern) (groups : Nat) :
    (ofRead ⟨p, groups⟩).Fronts (ofRead ⟨.seq (.look .textStart) p, groups⟩) ∧
      (ofRead ⟨.seq (.look .textStart) p, groups⟩).route =
        .seq (.look 0 .textStart) ((ofRead ⟨p, groups⟩).route.shift 1) := by
  have hroute := Route.ofPattern_add p false 1 0
  refine ⟨⟨fun j => ?_, ?_, rfl, ?_, ?_, ?_⟩, ?_⟩
  · simp [ofRead, Route.ofPattern, hroute, Nat.one_shiftLeft]
  · simp [ofRead, Route.ofPattern, hroute, Nat.one_shiftLeft]
  · simp [ofRead, Pattern.asksFirst]
  · simp [ofRead, Pattern.hasIdleLook]
  · simp [ofRead, Pattern.anyLook, Look.asksForWords]
  · simp [ofRead, Route.ofPattern, hroute]

/-- The matcher of a pattern for a text that begins one character before the cursor. -/
theorem fronts_textStart_all (p : Pattern) (groups : Nat) :
    (ofRead ⟨p, groups⟩).Fronts (ofRead ⟨.seq (.look .textStart) (.seq (.one .all) p), groups⟩) ∧
      (ofRead ⟨.seq (.look .textStart) (.seq (.one .all) p), groups⟩).route =
        .seq (.look 0 .textStart) (.seq (.one .all) ((ofRead ⟨p, groups⟩).route.shift 1)) := by
  have hroute := Route.ofPattern_add p false 1 0
  refine ⟨⟨fun j => ?_, ?_, rfl, ?_, ?_, ?_⟩, ?_⟩
  · simp [ofRead, Route.ofPattern, hroute, Nat.one_shiftLeft]
  · simp [ofRead, Route.ofPattern, hroute, Nat.one_shiftLeft]
  · simp [ofRead, Pattern.asksFirst]
  · simp [ofRead, Pattern.hasIdleLook]
  · simp [ofRead, Pattern.anyLook, Look.asksForWords]
  · simp [ofRead, Route.ofPattern, hroute]

theorem firstThread_eq (m : Matcher) (h : m.route = q) : m.firstThread = ⟨[q], []⟩ := by
  rw [firstThread, h]

/-! ### At the start of a text -/

/-- At the start of a text a thread passes the condition. -/
theorem settle_textStart (hfirst : marks.testBit 0 = true) (hc : c.before = none) :
    settle sight c [⟨[.seq (.look 0 .textStart) q], caps⟩] (.start marks) =
      settle sight c [⟨[q], caps⟩] ((Front.start marks).reach 0) := by
  simp [settle, follow, visit, Front.start, Front.reach, hfirst, hc, Look.looksAhead, Look.holds]

/-- Behind the condition the front is as it is without the condition. -/
theorem Fronts.start_reach (h : m.Fronts m') :
    (Front.start m.marks).Shifted 1 ((Front.start m'.marks).reach 0) := by
  refine ⟨fun j => ?_, rfl, rfl⟩
  have hfirst : (Front.start m'.marks).unmet.testBit 0 = true := h.first
  rw [Front.reach, Nat.one_shiftLeft, testBit_sub_two_pow hfirst]
  simpa [Front.start] using h.shifted j

theorem Fronts.find?_textStart (h : m.Fronts m')
    (hroute : m'.route = .seq (.look 0 .textStart) (m.route.shift 1)) (hc : c.before = none) :
    m'.find? wantsGroups c = m.matchFrom? wantsGroups c := by
  have hsettle (sight : Bool) : (settle sight c [m.firstThread] (.start m.marks)).Shifted 1
      (settle sight c [m'.firstThread] (.start m'.marks)) := by
    rw [m'.firstThread_eq hroute, settle_textStart h.first hc]
    exact settle_shift [m.firstThread] h.start_reach
  have hwalk (limit : Option Nat) : m'.walk limit c.ahead c [m'.firstThread] none =
      m.walk limit c.ahead c [m.firstThread] none := h.shifted.walk_eq (hsettle true)
  have hblind : m'.walkBlind c.ahead c [m'.firstThread] none =
      m.walkBlind c.ahead c [m.firstThread] none :=
    h.shifted.walkBlind_eq h.asksForWords (hsettle false)
  rw [find?, if_pos h.anchored, matchFrom?, matchFrom?]
  simp only [hwalk, hblind, h.idleLook, h.asksForWords, h.groups]

/-! ### One character before the cursor -/

/-- At the start of a text a thread passes the condition and reads a character. -/
theorem settle_all (hfirst : marks.testBit 0 = true) (hc : c.before = none)
    (hb : c.ahead.head? = some b) :
    settle true c [⟨[.seq (.look 0 .textStart) (.seq (.one .all) q)], caps⟩] (.start marks) =
      ⟨marks - 1, [⟨[q], caps⟩], none⟩ := by
  simp [settle, follow, visit, Front.start, Front.reach, Front.keepIf, hfirst, hc, hb,
    Look.looksAhead, Look.holds, CharSet.has_all]

theorem settle_all_blind (hfirst : marks.testBit 0 = true) (hc : c.before = none) :
    settle false c [⟨[.seq (.look 0 .textStart) (.seq (.one .all) q)], caps⟩] (.start marks) =
      ⟨marks - 1, [⟨[.one .all, q], caps⟩], none⟩ := by
  simp [settle, follow, visit, Front.start, Front.reach, Front.keep, hfirst, hc,
    Look.looksAhead, Look.holds]

theorem settle_waiting (hb : c.ahead.head? = some b) :
    settle true c [⟨[.one .all, q], caps⟩] (.start marks) = ⟨marks, [⟨[q], caps⟩], none⟩ := by
  simp [settle, follow, visit, Front.start, Front.keepIf, hb, CharSet.has_all]

/-- A search that begins one character early finds what a match from the cursor finds. -/
theorem Fronts.find?_textStart_all (h : m.Fronts m')
    (hroute : m'.route = .seq (.look 0 .textStart) (.seq (.one .all) (m.route.shift 1)))
    (hc : c.before = none) (hb : c.Reads [b] d) :
    m'.find? wantsGroups c = m.matchFrom? wantsGroups d := by
  obtain ⟨rest, hahead, hd⟩ := hb
  rw [Cursor.reads_nil] at hd
  have hhead : c.ahead.head? = some b := by rw [hahead]; rfl
  have hwalk (limit : Option Nat) (hlimit : limit ≠ some c.offset) :
      m'.walk limit c.ahead c [m'.firstThread] none =
        m.walk limit d.ahead d [m.firstThread] none := by
    rw [hahead, walk, m'.firstThread_eq hroute, settle_all h.first hc hhead, ← hd]
    simp only [List.isEmpty_cons, Bool.false_or, beq_iff_eq, hlimit, if_false]
    exact h.shifted.walk_map limit [m.firstThread] none
  have hblind : m'.walkBlind c.ahead c [m'.firstThread] none =
      if m.asksForWords && decide (0x80 ≤ b.toNat) then none
      else m.walkBlind d.ahead d [m.firstThread] none := by
    rw [hahead, walkBlind, m'.firstThread_eq hroute, settle_all_blind h.first hc, ← hd]
    simp only [List.reverse_singleton, List.isEmpty_cons, Bool.false_eq_true, if_false,
      List.head?_cons, Option.any_some, h.asksForWords, settle_waiting hhead]
    split
    · rfl
    · exact h.shifted.walkBlind_map h.asksForWords [m.firstThread] none
  have hplain := hwalk none (by simp)
  have hbefore : d.before = some b := by rw [← hd]; rfl
  have hlt : c.offset < d.offset := by
    have := b.utf8Size_pos
    rw [← hd, Cursor.offset_past]
    omega
  rw [find?, if_pos h.anchored, matchFrom?, matchFrom?]
  simp only [hplain, hblind, h.idleLook, h.asksForWords, h.groups, hc, hbefore,
    Option.any_none, Option.any_some, Bool.and_false, Bool.not_false, Bool.and_true]
  cases m.idleLook with
  | false => simp
  | true =>
    by_cases hwords : (m.asksForWords && decide (0x80 ≤ b.toNat)) = true
    · simp [hwords]
    · simp only [hwords, Bool.false_eq_true, if_true, if_false, Bool.not_false, Bool.and_self]
      cases hstop : m.walkBlind d.ahead d [m.firstThread] none with
      | none => rfl
      | some best =>
        cases best with
        | none => rfl
        | some stop =>
          obtain ⟨walked, hwalked⟩ := walkBlind_sound rfl
            (List.forall_mem_singleton.2 firstThread_sound) (by simp) hstop
          have hle : d.offset ≤ stop.offset := Cursor.Reaches.offset_le hwalked.leads.reads
          have hlimit : some stop.offset ≠ some c.offset := by
            simp only [ne_eq, Option.some.injEq]
            omega
          dsimp only
          rw [hwalk _ hlimit]

end Matcher

namespace CompiledRule

variable {r : CompiledRule} {c : Cursor} {pattern : String} {read : Pattern.Read}

/-- The match that a search from a place finds, unless it is empty. -/
def nonempty? (wantsGroups : Bool) (groups : Nat) (c : Cursor) :
    Option (Captures × Cursor) → Option RuleMatch
  | some (caps, stop) =>
    if c.offset < stop.offset then some ⟨stop, if wantsGroups then caps.upTo groups else []⟩
    else none
  | none => none

theorem nonempty?_eq_none {found : Option (Captures × Cursor)} {wantsGroups : Bool} {groups : Nat}
    (h : ∀ caps stop, found = some (caps, stop) → stop.offset ≤ c.offset) :
    nonempty? wantsGroups groups c found = none := by
  cases found with
  | none => rfl
  | some found => exact if_neg (Nat.not_lt.2 (h found.1 found.2 rfl))

theorem matchAt?_eq_nonempty? (r : CompiledRule) (c : Cursor) :
    r.matchAt? c = nonempty? r.action.wantsGroups r.atStart.groups c
      ((r.matcherAt c).find? r.action.wantsGroups (outlook c)) := by
  rw [matchAt?_eq]
  cases (r.matcherAt c).find? r.action.wantsGroups (outlook c) <;> rfl

/-- A rule whose pattern is empty stops at the cursor. -/
theorem stop_eq_of_empty {groups : Nat} {caps : Captures} {stop : Cursor}
    (hstart : r.atStart = .ofRead ⟨.look .textStart, groups⟩)
    (hcontext : r.inContext = .ofRead ⟨.seq (.look .textStart) (.one .all), groups⟩)
    (hc : c.Placed) {wantsGroups : Bool}
    (h : (r.matcherAt c).find? wantsGroups (outlook c) = some (caps, stop)) : stop = c := by
  obtain ⟨e, -, he, hfinds⟩ := Matcher.find?_sound h
  have hleads := hfinds.leads
  cases hb : c.before with
  | none =>
    have hmatcher : r.matcherAt c = r.atStart := by rw [matcherAt, hb]; rfl
    rw [hmatcher, hstart] at he hleads
    obtain rfl := he rfl
    rw [outlook, hb] at hleads
    exact hleads.2.symm
  | some b =>
    have hmatcher : r.matcherAt c = r.inContext := by rw [matcherAt, hb]; rfl
    rw [hmatcher, hcontext] at he hleads
    obtain rfl := he rfl
    rw [outlook, hb] at hleads
    obtain ⟨-, ⟨-, rfl⟩, ch, -, hread⟩ := hleads
    have hback := hc.reads_back hb
    obtain ⟨rfl, -⟩ := List.cons.inj (hback.ahead.symm.trans hread.ahead)
    exact hread.unique hback

/-- The match of a rule at a cursor is the one of its declared pattern in the whole text, even if
the declared pattern would be too large by itself. -/
theorem matchAt?_eq_of_readsWhole {s : Pattern.Partial}
    (hread : Pattern.ReadsWhole pattern.toList s)
    (hstart : Matcher.parse (startText pattern) = .ok r.atStart)
    (hcontext : Matcher.parse (contextText pattern) = .ok r.inContext) (hc : c.Placed) :
    r.matchAt? c = nonempty? r.action.wantsGroups s.read.groups c
      ((Matcher.ofRead s.read).matchFrom? r.action.wantsGroups c) := by
  obtain ⟨start, hstart, hatStart⟩ := Except.map_eq_ok hstart
  obtain ⟨context, hcontext, hinContext⟩ := Except.map_eq_ok hcontext
  have hnormal := hread.isNormal
  obtain rfl := Pattern.limited_eq_ok ((Pattern.parse_startText_eq hread).symm.trans hstart)
  obtain rfl := Pattern.limited_eq_ok ((Pattern.parse_contextText_eq hread).symm.trans hcontext)
  rw [Pattern.sequence_textStart hnormal] at hatStart
  rw [Pattern.sequence_textStart_all hnormal] at hinContext
  have hgroups : r.atStart.groups = s.read.groups := by rw [← hatStart]; rfl
  rw [matchAt?_eq_nonempty?, hgroups]
  by_cases hempty : s.read.pattern = .empty
  · rw [if_pos hempty] at hatStart hinContext
    have hbyRule : nonempty? r.action.wantsGroups s.read.groups c
        ((r.matcherAt c).find? r.action.wantsGroups (outlook c)) = none :=
      nonempty?_eq_none fun caps stop h => by
        rw [stop_eq_of_empty hatStart.symm hinContext.symm hc h]
    have hbyPattern : nonempty? r.action.wantsGroups s.read.groups c
        ((Matcher.ofRead s.read).matchFrom? r.action.wantsGroups c) = none :=
      nonempty?_eq_none fun caps stop h => by
        have hleads := (Matcher.matchFrom?_sound h).leads
        rw [Matcher.ofRead, hempty] at hleads
        rw [show c = stop from hleads]
    rw [hbyRule, hbyPattern]
  · rw [if_neg hempty] at hatStart hinContext
    refine congrArg (nonempty? _ _ c) ?_
    cases hb : c.before with
    | none =>
      have hout : outlook c = c := by rw [outlook, hb]
      obtain ⟨hfronts, hroute⟩ := Matcher.fronts_textStart s.read.pattern s.read.groups
      rw [hout, matcherAt, hb, Option.isNone_none, if_pos rfl, ← hatStart]
      exact hfronts.find?_textStart hroute hb
    | some b =>
      have hout : outlook c = ⟨none, b :: c.ahead, c.offset - b.utf8Size⟩ := by rw [outlook, hb]
      obtain ⟨hfronts, hroute⟩ := Matcher.fronts_textStart_all s.read.pattern s.read.groups
      rw [hout, matcherAt, hb, if_neg (by simp), ← hinContext]
      exact hfronts.find?_textStart_all hroute rfl (hc.reads_back hb)

/-- The match of a rule at a cursor is the one of its declared pattern in the whole text. -/
theorem matchAt?_eq_matchFrom? (hread : Pattern.parse pattern.toList = .ok read)
    (hstart : Matcher.parse (startText pattern) = .ok r.atStart)
    (hcontext : Matcher.parse (contextText pattern) = .ok r.inContext) (hc : c.Placed) :
    r.matchAt? c = nonempty? r.action.wantsGroups read.groups c
      ((Matcher.ofRead read).matchFrom? r.action.wantsGroups c) := by
  obtain ⟨s, hs, rfl⟩ := Pattern.exists_readsWhole hread
  exact matchAt?_eq_of_readsWhole hs hstart hcontext hc

theorem nonempty?_eq_some {found : Option (Captures × Cursor)} {wantsGroups : Bool}
    {groups : Nat} {m : RuleMatch} :
    nonempty? wantsGroups groups c found = some m ↔ ∃ caps, found = some (caps, m.stop) ∧
      c.offset < m.stop.offset ∧ m.groups = if wantsGroups then caps.upTo groups else [] := by
  constructor
  · intro h
    cases found with
    | none => cases h
    | some found =>
      obtain ⟨caps, stop⟩ := found
      rw [nonempty?] at h
      split at h
      · next hlt =>
        obtain rfl := Option.some.inj h
        exact ⟨caps, rfl, hlt, rfl⟩
      · cases h
  · obtain ⟨stop, ranges⟩ := m
    rintro ⟨caps, rfl, hlt, hgroups⟩
    dsimp only at hlt hgroups
    rw [nonempty?, if_pos hlt, ← hgroups]

end CompiledRule

end Highlighting
