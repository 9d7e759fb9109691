import Highlighting.Proofs.Pattern.Contents
import Highlighting.Proofs.Pattern.Groups
import Highlighting.Proofs.Pattern.Marks
import Highlighting.Proofs.Scan.Parts

/-!
# What the shape of a rule says of its matches

If the pattern of a rule is made of groups, the groups of a match follow one another from its start
to its end; so each part of the match that is not empty is one of them, between those before it and
those behind it (`CompiledRule.exists_group_of_mem_parts`).

A rule matches wherever its route leads somewhere, unless the search for a match may miss some
(`CompiledRule.exists_match_of_leads`); so one that surely takes a character matches wherever the
character is ahead (`CompiledRule.exists_match_of_surelyTakes`).  All this is computed from the
matchers of a rule.
-/

namespace Highlighting

/-! ### Elements among their neighbours -/

/-- Whether all elements of a list pass a test among their neighbours: the elements before, the
latest first, and the elements behind. -/
def allAmong {α : Type} (f : List α → α → List α → Bool) : List α → List α → Bool
  | _, [] => true
  | before, x :: behind => f before x behind && allAmong f (x :: before) behind

theorem among_of_allAmong {α : Type} {f : List α → α → List α → Bool} {back before behind : List α}
    {x : α} (h : allAmong f back (before ++ x :: behind) = true) :
    f (before.reverse ++ back) x behind = true := by
  induction before generalizing back with
  | nil => exact (Bool.and_eq_true_iff.1 h).1
  | cons y before ih =>
    have hrest := ih (Bool.and_eq_true_iff.1 h).2
    rwa [List.reverse_cons, List.append_assoc]

/-! ### Groups -/

theorem Route.Spans.leadAll {qs : List Route} {c d : Cursor} {ranges : List (Option (Nat × Nat))}
    (h : Route.Spans qs c d ranges) : Route.LeadAll qs c d := by
  induction qs generalizing c ranges with
  | nil => exact h.1
  | cons q qs ih =>
    obtain ⟨e, rest, hq, -, h⟩ := h
    exact ⟨e, hq, ih h⟩

/-- A part of a match is one of its groups, between those before it and those behind it. -/
def MatchPart.IsGroup (x : MatchPart) (gs : List (GroupAction Nat × Route)) (c d : Cursor) : Prop :=
  ∃ before q behind y e, gs = before ++ (x.action, q) :: behind ∧
    Route.LeadAll (before.map Prod.snd) c y ∧ q.Leads y e ∧
    Route.LeadAll (behind.map Prod.snd) e d ∧ x.start = y.offset ∧ x.stop = e.offset

namespace CompiledRule

variable {r : CompiledRule} {m : RuleMatch} {c d : Cursor} {qs : List Route}

/-- The routes of the groups of a rule, if its pattern is made of groups. -/
def groupRoutes? (r : CompiledRule) : Option (List Route) :=
  match r.body?.bind Route.groups? with
  | some gs =>
    if r.action.wantsGroups && !r.atStart.idleLook && !r.inContext.idleLook &&
        gs.map Prod.fst == (List.range r.atStart.groups).map (· + 1)
    then some (gs.map Prod.snd)
    else none
  | none => none

/-- The groups of a match follow one another. -/
theorem spans_of_groupRoutes? (h : r.groupRoutes? = some qs) (hc : c.Placed)
    (hm : r.matchAt? c = some m) : Route.Spans qs c m.stop m.groups := by
  obtain ⟨caps, hfind, -, hgroups⟩ := matchAt?_eq_some hm
  rw [groupRoutes?] at h
  split at h
  case h_2 => cases h
  next gs hgs =>
  split at h
  case isFalse => cases h
  next hshape =>
  obtain rfl := Option.some.inj h
  simp only [Bool.and_eq_true, Bool.not_eq_true', beq_iff_eq] at hshape
  obtain ⟨⟨⟨hwants, hstart⟩, hcontext⟩, hnumbers⟩ := hshape
  obtain ⟨p, hp, hgs⟩ := Option.bind_eq_some_iff.1 hgs
  obtain ⟨walked, hwalks, hcaps⟩ := walks_of_body? hp hc hfind
  have hidle : (r.matcherAt c).idleLook = false := by
    rw [matcherAt]
    split
    · exact hstart
    · exact hcontext
  obtain rfl := hcaps hidle
  have hnodup : (gs.map Prod.fst).Nodup := by
    rw [hnumbers]
    exact List.nodup_range.map fun i j h => Nat.succ.inj h
  have hspans := hwalks.spans hgs hnodup
  rw [hgroups, if_pos hwants, Captures.upTo]
  rw [hnumbers, List.map_map] at hspans
  exact hspans

theorem isGroup_of_mem_partsFrom {ranges : List (Option (Nat × Nat))} {d : Cursor}
    {actions : List (GroupAction Nat)} (h : Route.Spans qs c d ranges)
    (hlength : actions.length = qs.length) {x : MatchPart}
    (hx : x ∈ partsFrom d.offset c.offset (actions.zip ranges)) (hlt : x.start < x.stop) :
    x.IsGroup (actions.zip qs) c d := by
  induction qs generalizing c ranges actions with
  | nil =>
    obtain ⟨rfl, rfl⟩ := h
    rw [List.zip_nil_right] at hx
    obtain rfl := List.mem_singleton.1 hx
    exact absurd hlt (Nat.lt_irrefl _)
  | cons q qs ih =>
    obtain ⟨e, rest, hq, rfl, hrest⟩ := h
    cases actions with
    | nil => cases hlength
    | cons a actions =>
    have hlength' := Nat.succ.inj hlength
    -- what is said of the groups behind the first one
    have hlater : x ∈ partsFrom d.offset e.offset (actions.zip rest) →
        x.IsGroup ((a :: actions).zip (q :: qs)) c d := by
      intro hx
      obtain ⟨before, q', behind, y, z, hgs, hbefore, hq', hbehind, hstart, hstop⟩ :=
        ih hrest hlength' hx
      refine ⟨(a, q) :: before, q', behind, y, z, ?_, ⟨e, hq, hbefore⟩, hq', hbehind, hstart,
        hstop⟩
      rw [List.zip_cons_cons, hgs, List.cons_append]
    rw [List.zip_cons_cons, partsFrom] at hx
    split at hx
    · rcases List.mem_cons.1 hx with rfl | hx
      · exact absurd hlt (Nat.lt_irrefl _)
      rcases List.mem_cons.1 hx with rfl | hx
      · refine ⟨[], q, actions.zip qs, c, e, rfl, rfl, hq, ?_, rfl, rfl⟩
        rw [List.map_snd_zip (Nat.le_of_eq hlength'.symm)]
        exact hrest.leadAll
      · exact hlater hx
    · next hnot =>
      have heq : c.offset = e.offset := by
        obtain ⟨u, hu⟩ := hq.reads
        have := hu.offset_le
        omega
      exact hlater (heq ▸ hx)

/-- Each part of a match that is not empty is one of its groups. -/
theorem isGroup_of_mem_parts {actions : List (GroupAction Nat)} (h : r.groupRoutes? = some qs)
    (haction : r.action = .groups actions) (hlength : actions.length = qs.length) (hc : c.Placed)
    (hm : r.matchAt? c = some m) {x : MatchPart} (hx : x ∈ r.parts c m) (hlt : x.start < x.stop) :
    x.IsGroup (actions.zip qs) c m.stop := by
  rw [parts, haction] at hx
  exact isGroup_of_mem_partsFrom (spans_of_groupRoutes? h hc hm) hlength hx hlt

/-! ### Matches that are surely found -/

/-- Whether a search for matches of a rule misses none that its route leads to. -/
def isComplete (r : CompiledRule) : Bool :=
  match r.inContext.route with
  | .seq _ (.seq (.one s) _) =>
    s == .all && r.atStart.isNumbered && r.inContext.isNumbered && !r.atStart.idleLook &&
      !r.inContext.idleLook
  | _ => false

/-- A rule that misses no match searches with matchers that miss none, and the one that looks at
the character before a place takes any character there. -/
theorem routes_of_isComplete (h : r.isComplete = true) {p : Route} (hbody : r.body? = some p) :
    (∃ k k', r.atStart.route = .seq (.look k .textStart) p ∧
      r.inContext.route = .seq (.look k' .textStart) (.seq (.one .all) p)) ∧
    ∀ c, (r.matcherAt c).anchored = true ∧ (r.matcherAt c).IsTied ∧
      (r.matcherAt c).idleLook = false := by
  obtain ⟨k, k', s, hstart, hcontext, hanchored, hanchored'⟩ := routes_of_body? hbody
  simp only [isComplete, hcontext, Bool.and_eq_true, Bool.not_eq_true', beq_iff_eq] at h
  obtain ⟨⟨⟨⟨rfl, hnumbered⟩, hnumbered'⟩, hidle⟩, hidle'⟩ := h
  refine ⟨⟨k, k', hstart, hcontext⟩, fun c => ?_⟩
  rw [matcherAt]
  split
  · exact ⟨hanchored, Matcher.isTied_of_isNumbered hnumbered, hidle⟩
  · exact ⟨hanchored', Matcher.isTied_of_isNumbered hnumbered', hidle'⟩

/-- A rule matches where its route leads somewhere. -/
theorem exists_match_of_leads (h : r.isComplete = true) {p : Route} (hbody : r.body? = some p)
    (hskips : p.skips = false) (hc : c.Placed) (hlead : p.Leads c d) :
    ∃ m, r.matchAt? c = some m := by
  obtain ⟨⟨k, k', hstart, hcontext⟩, hsearch⟩ := routes_of_isComplete h hbody
  obtain ⟨-, htied, hidle⟩ := hsearch c
  have hout : (r.matcherAt c).route.Leads (outlook c) d := by
    cases hb : c.before with
    | none =>
      rw [matcherAt, outlook, hb]
      simp only [Option.isNone_none, if_true]
      rw [hstart]
      exact ⟨c, ⟨by simp [Look.holds, hb], rfl⟩, hlead⟩
    | some b =>
      rw [matcherAt, outlook, hb]
      simp only [Option.isNone_some, Bool.false_eq_true, if_false]
      rw [hcontext]
      exact ⟨_, ⟨rfl, rfl⟩, c, ⟨b, CharSet.has_all b, hc.reads_back hb⟩, hlead⟩
  obtain ⟨⟨caps, stop⟩, hfind⟩ :=
    Option.isSome_iff_exists.1 (Matcher.find?_isSome htied hidle r.action.wantsGroups hout)
  obtain ⟨walked, hwalks, -⟩ := walks_of_body? hbody hc hfind
  have hlt : c.offset < stop.offset := hwalks.leads.advances hskips
  rw [matchAt?_eq, hfind]
  exact ⟨_, if_pos hlt⟩

/-! ### Characters that are surely taken -/

/-- Whether a rule matches wherever a character is ahead. -/
def surelyTakes (ch : Char) (r : CompiledRule) : Bool :=
  match r.atStart.route, r.inContext.route with
  | .seq (.look _ .textStart) p, .seq (.look _ .textStart) (.seq (.one s) q) =>
    p.takes ch && q.takes ch && s == .all && !p.skips && r.body? == some p &&
      r.atStart.isNumbered && r.inContext.isNumbered && !r.atStart.idleLook &&
      !r.inContext.idleLook
  | _, _ => false

theorem exists_match_of_surelyTakes {ch : Char} (h : r.surelyTakes ch = true) (hc : c.Placed)
    (hread : c.Reads [ch] d) : ∃ m, r.matchAt? c = some m := by
  unfold surelyTakes at h
  split at h
  case h_2 => cases h
  next p s q hstart hcontext =>
  simp only [Bool.and_eq_true, Bool.not_eq_true', beq_iff_eq] at h
  obtain ⟨⟨⟨⟨⟨⟨⟨⟨hp, -⟩, rfl⟩, hskips⟩, hbody⟩, hnumbered⟩, hnumbered'⟩, hidle⟩, hidle'⟩ := h
  have hcomplete : r.isComplete = true := by
    simp [isComplete, hcontext, hnumbered, hnumbered', hidle, hidle']
  exact exists_match_of_leads hcomplete hbody hskips hc (Route.leads_of_takes hp hread)

/-- Ranges of characters that a rule surely takes.  Whether it surely takes one that its route takes
does not depend on the character. -/
def takenRanges (r : CompiledRule) : Intervals :=
  match r.body? with
  | some p => p.takenRanges.filter fun range => r.surelyTakes (Char.ofNat range.1)
  | none => []

theorem surelyTakes_of_meets {ch : Char} (h : CharSet.Meets ch.toNat r.takenRanges) :
    r.surelyTakes ch = true := by
  obtain ⟨range, hrange, hin⟩ := h
  rw [takenRanges] at hrange
  split at hrange
  case h_2 => cases hrange
  next p hp =>
  obtain ⟨hmem, hsure⟩ := List.mem_filter.1 hrange
  have htakes : p.takes ch = true := Route.takes_of_meets ⟨range, hmem, hin⟩
  unfold surelyTakes at hsure ⊢
  rw [body?] at hp
  split at hsure
  case h_2 => cases hsure
  next p' s q hstart hcontext =>
  simp only [hstart, hcontext] at hp
  split at hp
  case isFalse => cases hp
  next hboth =>
  obtain ⟨rfl, -⟩ := hboth
  obtain rfl := Option.some.inj hp
  simp only [Bool.and_eq_true] at hsure ⊢
  obtain ⟨⟨⟨⟨⟨⟨⟨-, hall⟩, hskips⟩, hbody⟩, hnumbered⟩, hnumbered'⟩, hidle⟩, hidle'⟩ := hsure
  exact ⟨⟨⟨⟨⟨⟨⟨⟨htakes, htakes⟩, hall⟩, hskips⟩, hbody⟩, hnumbered⟩, hnumbered'⟩, hidle⟩, hidle'⟩

/-- Whether each character is surely taken by one of some rules. -/
def takeAll (rules : List CompiledRule) : Bool :=
  CharSet.ofRanges (rules.flatMap takenRanges) == .all

theorem exists_of_takeAll {rules : List CompiledRule} (h : takeAll rules = true) (ch : Char) :
    ∃ r ∈ rules, r.surelyTakes ch = true := by
  have hall : (CharSet.ofRanges (rules.flatMap takenRanges)).has ch = true := by
    rw [beq_iff_eq.1 h]
    exact CharSet.has_all ch
  obtain ⟨range, hrange, hin⟩ := (CharSet.has_ofRanges _ ch).1 hall
  obtain ⟨r, hr, hrange⟩ := List.mem_flatMap.1 hrange
  exact ⟨r, hr, surelyTakes_of_meets ⟨range, hrange, hin⟩⟩

end CompiledRule

/-- Where each character is surely taken by one of some rules of a state, no character is left
unmatched. -/
theorem Grammar.firstMatch?_of_takeAll {g : Grammar} {state : Nat} {rules : List CompiledRule}
    (hrules : ∀ r ∈ rules, r ∈ g.rules state) (h : CompiledRule.takeAll rules = true)
    {c : Cursor} (hc : c.Placed) (hahead : c.ahead ≠ []) : g.firstMatch? state c ≠ none := by
  obtain ⟨ch, rest, hcons⟩ := List.exists_cons_of_ne_nil hahead
  obtain ⟨r, hr, htakes⟩ := CompiledRule.exists_of_takeAll h ch
  obtain ⟨m, hm⟩ := CompiledRule.exists_match_of_surelyTakes htakes hc (Cursor.reads_past hcons)
  intro hnone
  have := List.findSome?_eq_none_iff.1 hnone r (hrules r hr)
  simp [hm] at this

end Highlighting
