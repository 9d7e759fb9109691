import Highlighting.Grammar.Compiled
import Highlighting.Proofs.Pattern.Route

/-!
# Matches of rules

A match of a rule at a place of a text reads characters of that text, and those of its groups that
begin at or after the place lie inside it (`CompiledRule.matchAt?_sound`).  A group of a pattern
that was made for a text with one more character in front might begin before the place; a scan
passes over such a group.
-/

namespace Highlighting

namespace Cursor

variable {c d : Cursor} {u : List Char}

/-- The offset of a cursor leaves room for the character before it. -/
def Placed (c : Cursor) : Prop := ∀ b, c.before = some b → b.utf8Size ≤ c.offset

theorem placed_start (text : List Char) (offset : Nat) : (start text offset).Placed := by
  simp [Placed, start]

theorem Reads.placed (h : c.Reads u d) (hc : c.Placed) : d.Placed := by
  induction u generalizing c with
  | nil => rwa [← reads_nil.1 h]
  | cons x u ih =>
    obtain ⟨rest, -, h⟩ := h
    refine ih h fun b hb => ?_
    obtain rfl : x = b := by simpa using hb
    rw [offset_past]
    omega

theorem Reaches.placed (h : c.Reaches d) (hc : c.Placed) : d.Placed := by
  obtain ⟨u, hu⟩ := h
  exact hu.placed hc

/-- The place before the last character that was read, in a text that begins there. -/
theorem Placed.reads_back (h : c.Placed) {b : Char} (hb : c.before = some b) :
    Reads ⟨none, b :: c.ahead, c.offset - b.utf8Size⟩ [b] c := by
  refine ⟨c.ahead, rfl, ?_⟩
  obtain ⟨before, ahead, offset⟩ := c
  obtain rfl : before = some b := hb
  have : b.utf8Size ≤ offset := h b rfl
  simp only [reads_nil, past, mk.injEq, true_and]
  omega

end Cursor

namespace Captures

variable {caps : Captures} {slot index count : Nat} {first last : Nat}

theorem mem_of_slot? {n : Nat} (h : caps.slot? slot = some n) : (slot, n) ∈ caps := by
  obtain ⟨l, l', rfl, -⟩ := List.lookup_eq_some_iff.1 h
  simp

theorem mem_of_get? (h : caps.get? index = some (first, last)) :
    (Route.startSlot index, first) ∈ caps ∧ (Route.stopSlot index, last) ∈ caps := by
  rw [get?] at h
  split at h
  · next hfirst hlast =>
    obtain ⟨rfl, rfl⟩ := Prod.mk.inj (Option.some.inj h)
    exact ⟨mem_of_slot? hfirst, mem_of_slot? hlast⟩
  · cases h

end Captures

namespace RuleMatch

/-- A group begins before a place, or it lies between that place and the end of the match. -/
def GroupInside (c stop : Cursor) : Option (Nat × Nat) → Prop
  | none => True
  | some (first, last) =>
    c.offset ≤ first → Between c stop first ∧ (c.offset ≤ last → Between c stop last)

/-- A match reads characters ahead of a place, and its groups lie inside it. -/
structure Inside (m : RuleMatch) (c : Cursor) : Prop where
  reaches : c.Reaches m.stop
  advances : c.offset < m.stop.offset
  groups : ∀ g ∈ m.groups, GroupInside c m.stop g

end RuleMatch

theorem Between.of_le {b c d : Cursor} {n : Nat} (h : Between b d n) (hc : b.Reaches c)
    (hn : c.offset ≤ n) : Between c d n := by
  obtain ⟨e, hb, hd, rfl⟩ := h
  exact ⟨e, hc.split hb hn, hd, rfl⟩

namespace CompiledRule

variable {r : CompiledRule} {c : Cursor} {m : RuleMatch}

/-- The cursor from which the pattern of a rule is matched. -/
def outlook (c : Cursor) : Cursor :=
  match c.before with
  | none => c
  | some b => ⟨none, b :: c.ahead, c.offset - b.utf8Size⟩

theorem outlook_reaches (hc : c.Placed) : (outlook c).Reaches c := by
  unfold outlook
  split
  · exact .refl c
  · next b hb => exact (hc.reads_back hb).reaches

/-- The pattern that is matched at a cursor. -/
def matcherAt (r : CompiledRule) (c : Cursor) : Matcher :=
  if c.before.isNone then r.atStart else r.inContext

theorem matchAt?_eq (r : CompiledRule) (c : Cursor) :
    r.matchAt? c =
      match (r.matcherAt c).find? r.action.wantsGroups (outlook c) with
      | some (caps, stop) =>
        if c.offset < stop.offset then
          some ⟨stop, if r.action.wantsGroups then caps.upTo r.atStart.groups else []⟩
        else none
      | none => none := by
  obtain ⟨before, ahead, offset⟩ := c
  cases before <;> rfl

theorem matchAt?_eq_some (h : r.matchAt? c = some m) : ∃ caps,
    (r.matcherAt c).find? r.action.wantsGroups (outlook c) = some (caps, m.stop) ∧
      c.offset < m.stop.offset ∧
      m.groups = if r.action.wantsGroups then caps.upTo r.atStart.groups else [] := by
  rw [matchAt?_eq] at h
  split at h
  · next caps stop hfind =>
    split at h
    · next hlt =>
      obtain rfl := Option.some.inj h
      exact ⟨caps, hfind, hlt, rfl⟩
    · cases h
  · cases h

/-- A rule matches inside of the text ahead. -/
theorem matchAt?_sound (hc : c.Placed) (h : r.matchAt? c = some m) : m.Inside c := by
  obtain ⟨caps, hfind, hlt, hgroups⟩ := matchAt?_eq_some h
  obtain ⟨e, hb, -, he⟩ := Matcher.find?_sound hfind
  have hback := outlook_reaches hc
  have hbetween : ∀ x ∈ caps, Between (outlook c) m.stop x.2 := by
    intro x hx
    obtain ⟨y, hy, hstop, hoff⟩ := he.between x hx
    exact ⟨y, hb.trans hy, hstop, hoff⟩
  refine ⟨hback.split (hb.trans he.reaches) (Nat.le_of_lt hlt), hlt, fun g hg => ?_⟩
  rw [hgroups] at hg
  split at hg
  case isFalse => cases hg
  rw [Captures.upTo] at hg
  obtain ⟨i, -, rfl⟩ := List.mem_map.1 hg
  cases hi : caps.get? (i + 1) with
  | none => trivial
  | some g =>
    obtain ⟨first, last⟩ := g
    obtain ⟨hfirst, hlast⟩ := Captures.mem_of_get? hi
    exact fun hle => ⟨(hbetween _ hfirst).of_le hback hle, (hbetween _ hlast).of_le hback⟩

/-- The route of the declared pattern, which both patterns of a rule walk behind what they ask of
the start of their text. -/
def body? (r : CompiledRule) : Option Route :=
  match r.atStart.route, r.inContext.route with
  | .seq (.look _ .textStart) p, .seq (.look _ .textStart) (.seq (.one _) q) =>
    if p = q ∧ r.atStart.anchored = true ∧ r.inContext.anchored = true then some p else none
  | _, _ => none

theorem routes_of_body? {p : Route} (h : r.body? = some p) :
    ∃ k k' s, r.atStart.route = .seq (.look k .textStart) p ∧
      r.inContext.route = .seq (.look k' .textStart) (.seq (.one s) p) ∧
      r.atStart.anchored = true ∧ r.inContext.anchored = true := by
  rw [body?] at h
  split at h
  case h_2 => cases h
  next k p' k' s q hstart hcontext =>
  split at h
  case isFalse => cases h
  next hboth =>
  obtain ⟨rfl, hanchored, hanchored'⟩ := hboth
  obtain rfl := Option.some.inj h
  exact ⟨k, k', s, hstart, hcontext, hanchored, hanchored'⟩

/-- The route of the declared pattern walks to the end of a match. -/
theorem walks_of_body? {p : Route} {caps : Captures} {d : Cursor} (hp : r.body? = some p)
    (hc : c.Placed)
    (h : (r.matcherAt c).find? r.action.wantsGroups (outlook c) = some (caps, d)) :
    ∃ walked, p.Walks (c, []) (d, walked) ∧
      ((r.matcherAt c).idleLook = false → walked = caps) := by
  obtain ⟨e, -, he, hfinds⟩ := Matcher.find?_sound h
  obtain ⟨walked, hwalks, hcaps⟩ := hfinds.walks
  refine ⟨walked, ?_, hcaps⟩
  obtain ⟨k, k', s, hstart, hcontext, hanchored, hanchored'⟩ := routes_of_body? hp
  cases hb : c.before with
  | none =>
    have hout : outlook c = c := by rw [outlook, hb]
    rw [hout, matcherAt, hb] at he
    rw [matcherAt, hb] at hwalks
    simp only [Option.isNone_none, if_true] at he hwalks
    obtain rfl := he hanchored
    rw [hstart] at hwalks
    obtain ⟨z, ⟨-, rfl⟩, hwalks⟩ := hwalks
    exact hwalks
  | some b =>
    have hback := hc.reads_back hb
    have hout : outlook c = ⟨none, b :: c.ahead, c.offset - b.utf8Size⟩ := by rw [outlook, hb]
    rw [hout, matcherAt, hb] at he
    rw [matcherAt, hb] at hwalks
    simp only [Option.isNone_some, Bool.false_eq_true, if_false] at he hwalks
    obtain rfl := he hanchored'
    rw [hcontext] at hwalks
    obtain ⟨z, ⟨-, rfl⟩, ⟨z', caps'⟩, ⟨⟨ch, -, hch⟩, hnil⟩, hwalks⟩ := hwalks
    obtain rfl : b = ch := (List.cons.inj hch.ahead).1
    obtain rfl : [] = caps' := hnil
    rwa [hback.unique hch]

/-- The route of the declared pattern leads to the end of a match. -/
theorem leads_of_body? {p : Route} (hp : r.body? = some p) (hc : c.Placed)
    (h : r.matchAt? c = some m) : p.Leads c m.stop := by
  obtain ⟨caps, hfind, -, -⟩ := matchAt?_eq_some h
  obtain ⟨walked, hwalks, -⟩ := walks_of_body? hp hc hfind
  exact hwalks.leads

end CompiledRule

namespace Grammar

variable {g : Grammar} {state : Nat} {c : Cursor} {r : CompiledRule} {m : RuleMatch}

/-- The first match of a state is one of its rules'. -/
theorem mem_of_firstMatch? (h : g.firstMatch? state c = some (r, m)) :
    r ∈ g.rules state ∧ r.matchAt? c = some m := by
  obtain ⟨r', hr', hm⟩ := List.exists_of_findSome?_eq_some h
  obtain ⟨m', hm', heq⟩ := Option.map_eq_some_iff.1 hm
  obtain ⟨rfl, rfl⟩ := Prod.mk.inj heq
  exact ⟨hr', hm'⟩

theorem firstMatch?_inside (hc : c.Placed) (h : g.firstMatch? state c = some (r, m)) :
    m.Inside c := CompiledRule.matchAt?_sound hc (mem_of_firstMatch? h).2

end Grammar

end Highlighting
