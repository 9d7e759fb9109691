import Mathlib.Data.List.TakeWhile
import Highlighting.Proofs.Pattern.Contents
import Highlighting.Proofs.Pattern.Preference

/-!
# How routes begin and end

`Route.firstOff` and `Route.lastOff` say that what a route reads does not begin or end with a
character of some ranges, wherever the route leads.  Where the way through a route is the preferred
one, more can be said of its end: a greedy loop goes on as long as a round surely takes the
character ahead (`Route.Tries.exhausts`).

Both are put together in `Route.settles`: the preferred way through a route does not end inside of a
word (`Route.Tries.settled`), because it ends at a word boundary, with a character that is no word
character, or with a loop that takes all word characters.
-/

namespace Highlighting

/-! ### Ranges -/

namespace CharSet

/-- Whether ranges lie in the ranges of another list, both being in the order of their starts. -/
def lieIn (rs : Intervals) : Intervals → Bool
  | [] => rs.isEmpty
  | t :: ts => lieIn (rs.dropWhile fun r => t.1 ≤ r.1 && r.2 ≤ t.2) ts

theorem meets_of_lieIn {rs ts : Intervals} (h : lieIn rs ts = true) {n : Nat} (hn : Meets n rs) :
    Meets n ts := by
  induction ts generalizing rs with
  | nil =>
    obtain ⟨r, hr, -⟩ := hn
    rw [List.isEmpty_iff.1 h] at hr
    cases hr
  | cons t ts ih =>
    obtain ⟨r, hr, hlo, hhi⟩ := hn
    rw [← List.takeWhile_append_dropWhile (p := fun r => t.1 ≤ r.1 && r.2 ≤ t.2) (l := rs),
      List.mem_append] at hr
    rcases hr with hr | hr
    · have hin := List.mem_takeWhile_imp hr
      rw [Bool.and_eq_true, decide_eq_true_eq, decide_eq_true_eq] at hin
      exact ⟨t, List.mem_cons_self, Nat.le_trans hin.1 hlo, Nat.le_trans hhi hin.2⟩
    · exact meets_cons.2 (.inr (ih h ⟨r, hr, hlo, hhi⟩))

/-- Whether ranges are in the order of their starts, in one pass over them. -/
def inOrder : Intervals → Bool
  | r :: t :: rs => decide (r.1 ≤ t.1) && inOrder (t :: rs)
  | _ => true

theorem ordered_of_inOrder {rs : Intervals} (h : inOrder rs = true) : Ordered rs := by
  fun_induction inOrder rs with
  | case1 r t rs ih =>
    rw [Bool.and_eq_true, decide_eq_true_eq] at h
    have hrest := ih h.2
    refine List.pairwise_cons.2 ⟨List.forall_mem_cons.2 ⟨h.1, fun x hx => ?_⟩, hrest⟩
    exact Nat.le_trans h.1 ((List.pairwise_cons.1 hrest).1 x hx)
  | case2 rs hshort =>
    match rs with
    | [] => exact .nil
    | [r] => exact List.pairwise_singleton _ r
    | r :: t :: rs => exact absurd rfl (hshort r t rs)

/-- Whether no character lies in both of two lists of ranges, both being in the order of their
starts. -/
def apartInOrder : Intervals → Intervals → Bool
  | [], _ => true
  | r :: rs, ts =>
    let later := ts.dropWhile fun t => t.2 < r.1
    later.head?.all (fun t => decide (r.2 < t.1)) && apartInOrder rs later

theorem not_meets_of_apartInOrder {rs ts : Intervals} (h : apartInOrder rs ts = true)
    (hrs : Ordered rs) (hts : Ordered ts) {n : Nat} (hn : Meets n rs) : ¬ Meets n ts := by
  induction rs generalizing ts with
  | nil => exact absurd hn (by simp [Meets])
  | cons r rs ih =>
    rw [apartInOrder, Bool.and_eq_true] at h
    obtain ⟨hfirst, hrs⟩ := List.pairwise_cons.1 hrs
    have hlater : Ordered (ts.dropWhile fun t => t.2 < r.1) := hts.sublist (List.dropWhile_sublist _)
    have hstart : r.1 ≤ n := by
      obtain ⟨r', hr', hlo, -⟩ := hn
      rcases List.mem_cons.1 hr' with rfl | hr'
      · exact hlo
      · exact Nat.le_trans (hfirst r' hr') hlo
    rintro ⟨t, ht, hlo, hhi⟩
    rw [← List.takeWhile_append_dropWhile (p := fun t => t.2 < r.1) (l := ts),
      List.mem_append] at ht
    rcases ht with ht | ht
    · -- a range that is passed over ends before all that are left begin
      have hpassed := List.mem_takeWhile_imp ht
      rw [decide_eq_true_eq] at hpassed
      omega
    · rcases meets_cons.1 hn with hin | hn
      · cases hcons : ts.dropWhile (fun t => t.2 < r.1) with
        | nil => rw [hcons] at ht; cases ht
        | cons t' later =>
          rw [hcons] at h ht hlater
          have hahead : r.2 < t'.1 := of_decide_eq_true h.1
          have hle : t'.1 ≤ t.1 := by
            rcases List.mem_cons.1 ht with rfl | ht
            · exact Nat.le_refl _
            · exact (List.pairwise_cons.1 hlater).1 t ht
          omega
      · exact ih h.2 hrs hlater hn ⟨t, ht, hlo, hhi⟩

/-- Whether ranges are in order and no character lies in both of them. -/
def apart (rs ts : Intervals) : Bool := inOrder rs && inOrder ts && apartInOrder rs ts

theorem not_meets_of_apart {rs ts : Intervals} (h : apart rs ts = true) {n : Nat}
    (hn : Meets n rs) : ¬ Meets n ts := by
  rw [apart, Bool.and_eq_true, Bool.and_eq_true] at h
  exact not_meets_of_apartInOrder h.2 (ordered_of_inOrder h.1.1) (ordered_of_inOrder h.1.2) hn

theorem meets_of_covers {n : Nat} {rs : Intervals} (h : covers n rs = true) : Meets n rs := by
  induction rs with
  | nil => cases h
  | cons r rs ih =>
    rw [covers, Bool.and_eq_true, Bool.or_eq_true, decide_eq_true_eq, decide_eq_true_eq] at h
    exact meets_cons.2 (h.2.imp (fun hhi => ⟨h.1, hhi⟩) ih)

theorem meets_of_has {s : CharSet} {ch : Char} (h : s.has ch = true) : Meets ch.toNat s.ranges :=
  meets_of_covers h

end CharSet

theorem Intervals.has_iff_meets {rs : Intervals} {ch : Char} :
    rs.has ch = true ↔ CharSet.Meets ch.toNat rs := Intervals.has_iff

/-- Whether ranges are in order and a character is in none of them. -/
def Intervals.lacks (rs : Intervals) (ch : Char) : Bool :=
  CharSet.apart [(ch.toNat, ch.toNat)] rs

theorem Intervals.has_of_lacks {rs : Intervals} {ch : Char} (h : rs.lacks ch = true) :
    rs.has ch = false := by
  have hself : CharSet.Meets ch.toNat [(ch.toNat, ch.toNat)] :=
    ⟨_, List.mem_singleton_self _, Nat.le_refl _, Nat.le_refl _⟩
  exact Bool.eq_false_iff.2 fun hhas =>
    CharSet.not_meets_of_apart h hself (Intervals.has_iff_meets.1 hhas)

theorem has_wordIntervals_iff {ch : Char} : wordIntervals.has ch = true ↔ isWordChar ch = true := by
  rw [← CharSet.has_ofRanges_word, CharSet.has_ofRanges, Intervals.has_iff_meets]

namespace Route

variable {r p q : Route} {rest rs : List Route} {c d e : Cursor} {ch : Char} {u ahead : List Char}
  {bad : Intervals} {met met' : Set Nat} {caps caps' : Captures} {found : Captures × Cursor}
  {mark : Nat} {ms ns : List Nat}

/-! ### The first character -/

/-- Whether what a route reads begins with no character of some ranges. -/
def firstOff (bad : Intervals) : Route → Bool
  | .text cs => cs.head?.all bad.lacks
  | .one s => CharSet.apart s.ranges bad
  | .seq p q => p.firstOff bad && (!p.skips || q.firstOff bad)
  | .fork p q => p.firstOff bad && q.firstOff bad
  | .star _ p _ | .plus _ p _ | .again _ p _ => p.firstOff bad
  | _ => true

/-- Whether what routes read, one after another, begins with a character outside of some ranges. -/
def openOff (bad : Intervals) : List Route → Bool
  | [] => false
  | r :: rest => r.firstOff bad && (!r.skips || openOff bad rest)

/-- A text begins with no character of some ranges. -/
def StartsOff (bad : Intervals) (u : List Char) : Prop :=
  ∀ ch, u.head? = some ch → bad.has ch = false

theorem has_false_of_apart {s : CharSet} (h : CharSet.apart s.ranges bad = true)
    (hs : s.has ch = true) : bad.has ch = false :=
  Bool.eq_false_iff.2 fun hbad =>
    CharSet.not_meets_of_apart h (CharSet.meets_of_has hs) (Intervals.has_iff_meets.1 hbad)

theorem StartsOff.append {v : List Char} (hu : StartsOff bad u) (hv : u = [] → StartsOff bad v) :
    StartsOff bad (u ++ v) := by
  cases u with
  | nil => exact hv rfl
  | cons x u => exact hu

theorem firstOff_rounds (h : Relation.ReflTransGen p.Leads c d)
    (ih : ∀ {c d}, p.Leads c d → ∃ u, c.Reads u d ∧ StartsOff bad u) :
    ∃ u, c.Reads u d ∧ StartsOff bad u := by
  induction h using Relation.ReflTransGen.head_induction_on with
  | refl => exact ⟨[], rfl, fun _ h => by cases h⟩
  | head hp _ ihs =>
    obtain ⟨u, hu, hoff⟩ := ih hp
    obtain ⟨v, hv, hoff'⟩ := ihs
    exact ⟨u ++ v, hu.trans hv, hoff.append fun _ => hoff'⟩

theorem Leads.exists_startsOff (h : r.Leads c d) (hr : r.firstOff bad = true) :
    ∃ u, c.Reads u d ∧ StartsOff bad u := by
  induction r generalizing c d with
  | done | record _ | meet _ => exact ⟨[], h, fun _ h => by cases h⟩
  | look _ l => exact ⟨[], h.2, fun _ h => by cases h⟩
  | text cs =>
    refine ⟨cs, h, fun ch hch => ?_⟩
    rw [firstOff, hch, Option.all_some] at hr
    exact Intervals.has_of_lacks hr
  | one s =>
    obtain ⟨x, hx, hd⟩ := h
    refine ⟨[x], hd, fun ch hch => ?_⟩
    obtain rfl : x = ch := by simpa using hch
    exact has_false_of_apart hr hx
  | seq p q ihp ihq =>
    obtain ⟨e, hp, hq⟩ := h
    rw [firstOff, Bool.and_eq_true, Bool.or_eq_true, Bool.not_eq_true'] at hr
    obtain ⟨u, hu, hoff⟩ := ihp hp hr.1
    rcases hr.2 with hskips | hqoff
    · obtain ⟨v, hv⟩ := hq.reads
      exact ⟨u ++ v, hu.trans hv,
        hoff.append fun hnil => absurd hnil (hu.ne_nil (hp.advances hskips))⟩
    · obtain ⟨v, hv, hoff'⟩ := ihq hq hqoff
      exact ⟨u ++ v, hu.trans hv, hoff.append fun _ => hoff'⟩
  | fork p q ihp ihq =>
    rw [firstOff, Bool.and_eq_true] at hr
    exact h.elim (ihp · hr.1) (ihq · hr.2)
  | star _ p _ ih | again _ p _ ih => exact firstOff_rounds h (ih · hr)
  | plus _ p _ ih =>
    obtain ⟨e, hp, hs⟩ := h
    obtain ⟨u, hu, hoff⟩ := ih hp hr
    obtain ⟨v, hv, hoff'⟩ := firstOff_rounds hs (ih · hr)
    exact ⟨u ++ v, hu.trans hv, hoff.append fun _ => hoff'⟩

/-- What a route reads does not begin with a character that it does not begin with. -/
theorem Leads.startsOff (h : r.Leads c d) (hr : r.firstOff bad = true) (hu : c.Reads u d) :
    StartsOff bad u := by
  obtain ⟨v, hv, hoff⟩ := h.exists_startsOff hr
  obtain rfl := hu.text_unique hv
  exact hoff

/-- Where routes lead that begin off some ranges, a character outside of the ranges is ahead. -/
theorem head?_of_openOff (h : LeadAll rs c d) (hrs : openOff bad rs = true) :
    ∃ ch, c.ahead.head? = some ch ∧ bad.has ch = false := by
  induction rs generalizing c with
  | nil => cases hrs
  | cons r rs ih =>
    obtain ⟨e, hr, hrest⟩ := h
    rw [openOff, Bool.and_eq_true, Bool.or_eq_true, Bool.not_eq_true'] at hrs
    obtain ⟨u, hu, hoff⟩ := hr.exists_startsOff hrs.1
    cases u with
    | nil =>
      obtain rfl := Cursor.reads_nil.1 hu
      rcases hrs.2 with hskips | hopen
      · exact absurd (hr.advances hskips) (Nat.lt_irrefl _)
      · exact ih hrest hopen
    | cons ch u => exact ⟨ch, by rw [hu.ahead]; rfl, hoff ch rfl⟩

/-! ### The last character -/

/-- Whether what a route reads ends with no character of some ranges. -/
def lastOff (bad : Intervals) : Route → Bool
  | .text cs => cs.getLast?.all bad.lacks
  | .one s => CharSet.apart s.ranges bad
  | .seq p q => q.lastOff bad && (!q.skips || p.lastOff bad)
  | .fork p q => p.lastOff bad && q.lastOff bad
  | .star _ p _ | .plus _ p _ | .again _ p _ => p.lastOff bad
  | _ => true

/-- A text ends with no character of some ranges. -/
def EndsOff (bad : Intervals) (u : List Char) : Prop :=
  ∀ ch, u.getLast? = some ch → bad.has ch = false

theorem endsOff_nil : EndsOff bad [] := fun _ h => by cases h

theorem EndsOff.append {v : List Char} (hu : EndsOff bad u) (hv : EndsOff bad v) :
    EndsOff bad (u ++ v) := by
  intro ch hch
  rw [List.getLast?_append] at hch
  cases hlast : v.getLast? with
  | none =>
    rw [hlast] at hch
    exact hu ch hch
  | some x =>
    rw [hlast] at hch
    exact hv ch (hlast.trans hch)

theorem lastOff_rounds (h : Relation.ReflTransGen p.Leads c d)
    (ih : ∀ {c d}, p.Leads c d → ∃ u, c.Reads u d ∧ EndsOff bad u) :
    ∃ u, c.Reads u d ∧ EndsOff bad u := by
  induction h using Relation.ReflTransGen.head_induction_on with
  | refl => exact ⟨[], rfl, endsOff_nil⟩
  | head hp _ ihs =>
    obtain ⟨u, hu, hoff⟩ := ih hp
    obtain ⟨v, hv, hoff'⟩ := ihs
    exact ⟨u ++ v, hu.trans hv, hoff.append hoff'⟩

theorem Leads.exists_endsOff (h : r.Leads c d) (hr : r.lastOff bad = true) :
    ∃ u, c.Reads u d ∧ EndsOff bad u := by
  induction r generalizing c d with
  | done | record _ | meet _ => exact ⟨[], h, endsOff_nil⟩
  | look _ l => exact ⟨[], h.2, endsOff_nil⟩
  | text cs =>
    refine ⟨cs, h, fun ch hch => ?_⟩
    rw [lastOff, hch, Option.all_some] at hr
    exact Intervals.has_of_lacks hr
  | one s =>
    obtain ⟨x, hx, hd⟩ := h
    refine ⟨[x], hd, fun ch hch => ?_⟩
    obtain rfl : x = ch := by simpa using hch
    exact has_false_of_apart hr hx
  | seq p q ihp ihq =>
    obtain ⟨e, hp, hq⟩ := h
    rw [lastOff, Bool.and_eq_true, Bool.or_eq_true, Bool.not_eq_true'] at hr
    obtain ⟨v, hv, hoff'⟩ := ihq hq hr.1
    rcases hr.2 with hskips | hpoff
    · obtain ⟨u, hu⟩ := hp.reads
      refine ⟨u ++ v, hu.trans hv, fun ch hch => hoff' ch ?_⟩
      rwa [List.getLast?_append_of_ne_nil _ (hv.ne_nil (hq.advances hskips))] at hch
    · obtain ⟨u, hu, hoff⟩ := ihp hp hpoff
      exact ⟨u ++ v, hu.trans hv, hoff.append hoff'⟩
  | fork p q ihp ihq =>
    rw [lastOff, Bool.and_eq_true] at hr
    exact h.elim (ihp · hr.1) (ihq · hr.2)
  | star _ p _ ih | again _ p _ ih => exact lastOff_rounds h (ih · hr)
  | plus _ p _ ih =>
    obtain ⟨e, hp, hs⟩ := h
    obtain ⟨u, hu, hoff⟩ := ih hp hr
    obtain ⟨v, hv, hoff'⟩ := lastOff_rounds hs (ih · hr)
    exact ⟨u ++ v, hu.trans hv, hoff.append hoff'⟩

/-- What a route reads does not end with a character that it does not end with. -/
theorem Leads.endsOff (h : r.Leads c d) (hr : r.lastOff bad = true) (hu : c.Reads u d) :
    EndsOff bad u := by
  obtain ⟨v, hv, hoff⟩ := h.exists_endsOff hr
  obtain rfl := hu.text_unique hv
  exact hoff

/-! ### What is left to try behind a route -/

namespace Tries

theorem of_prefer {greedy : Bool} (h : Tries met (prefer greedy p q :: rest) c caps (some found)) :
    Tries met (p :: rest) c caps (some found) ∨ Tries met (q :: rest) c caps (some found) := by
  cases greedy with
  | true =>
    cases h with
    | first h => exact .inl h
    | second _ h => exact .inr h
  | false =>
    cases h with
    | first h => exact .inr h
    | second _ h => exact .inl h

theorem of_prefer_none {greedy : Bool} (h : Tries met (prefer greedy p q :: rest) c caps none) :
    Tries met (p :: rest) c caps none ∧ Tries met (q :: rest) c caps none := by
  cases greedy with
  | true =>
    cases h with
    | second hp hq => exact ⟨hp, hq⟩
    | blocked hr => cases hr
  | false =>
    cases h with
    | second hq hp => exact ⟨hp, hq⟩
    | blocked hr => cases hr

/-- What has been met is still met, or characters have been read. -/
def GoesOn (met met' : Set Nat) (c d : Cursor) : Prop := met ⊆ met' ∨ c.offset < d.offset

theorem GoesOn.trans {met'' : Set Nat} (h : GoesOn met met' c d) (h' : GoesOn met' met'' d e)
    (hle : c.offset ≤ d.offset) (hle' : d.offset ≤ e.offset) : GoesOn met met'' c e := by
  rcases h with h | h
  · rcases h' with h' | h'
    · exact .inl (h.trans h')
    · exact .inr (Nat.lt_of_le_of_lt hle h')
  · exact .inr (Nat.lt_of_lt_of_le h hle')

/-- A route is followed by what is left, from where it leads to. -/
def LeavesBehind (r : Route) (rest : List Route) (met : Set Nat) (c : Cursor)
    (found : Captures × Cursor) : Prop :=
  ∃ met' d caps', r.Leads c d ∧ Tries met' rest d caps' (some found) ∧ GoesOn met met' c d

theorem LeavesBehind.of_seq (h : LeavesBehind p (q :: rest) met c found)
    (hq : ∀ {met c caps}, Tries met (q :: rest) c caps (some found) →
      LeavesBehind q rest met c found) : LeavesBehind (.seq p q) rest met c found := by
  obtain ⟨met', e, caps', hp, htries, hon⟩ := h
  obtain ⟨met'', d, caps'', hq, htries, hon'⟩ := hq htries
  obtain ⟨u, hu⟩ := hp.reads
  obtain ⟨v, hv⟩ := hq.reads
  exact ⟨met'', d, caps'', ⟨e, hp, hq⟩, htries, hon.trans hon' hu.offset_le hv.offset_le⟩

/-- A loop that is at its mark again has read something in between. -/
theorem lt_of_goesOn (hon : GoesOn (insert mark met) met' c d) (hmark : mark ∉ met') :
    c.offset < d.offset := by
  refine hon.resolve_left fun hsub => hmark (hsub (Set.mem_insert mark met))

theorem behind_text {cs : List Char} (h : Tries met (.text cs :: rest) c caps (some found)) :
    LeavesBehind (.text cs) rest met c found := by
  induction cs generalizing met c with
  | nil => cases h
  | cons x xs ih =>
    cases h with
    | @text _ _ _ _ _ ahead _ _ hx h =>
      have hlt : c.offset < (c.past x ahead).offset := by
        have := x.utf8Size_pos
        rw [Cursor.offset_past]
        omega
      cases xs with
      | nil => exact ⟨∅, _, caps, ⟨ahead, hx, rfl⟩, h, .inr hlt⟩
      | cons y ys =>
        obtain ⟨met', d, caps', hlead, htries, -⟩ := ih h
        have hle := Cursor.Reads.offset_le (show (c.past x ahead).Reads (y :: ys) d from hlead)
        exact ⟨met', d, caps', ⟨ahead, hx, hlead⟩, htries, .inr (Nat.lt_of_lt_of_le hlt hle)⟩

/-- Behind the rounds of a loop, what is left is tried. -/
theorem behind_star {greedy : Bool}
    (ih : ∀ {rest met c caps}, Tries met (p :: rest) c caps (some found) →
      LeavesBehind p rest met c found)
    (h : Tries met (.star mark p greedy :: rest) c caps (some found)) :
    LeavesBehind (.star mark p greedy) rest met c found := by
  induction hn : c.ahead.length using Nat.strongRecOn generalizing c met caps with
  | ind n ihn =>
    cases h with
    | star hmark h =>
      rcases of_prefer h with h | h
      · cases h with
        | seq h =>
          obtain ⟨met', e, caps', hp, htries, hon⟩ := ih h
          have hlt : c.offset < e.offset := by
            cases htries with
            | star hmark' => exact lt_of_goesOn hon hmark'
          obtain ⟨u, hu⟩ := hp.reads
          obtain ⟨met'', d, caps'', hstar, htries, -⟩ :=
            ihn _ (hn ▸ hu.length_lt (hu.ne_nil hlt)) htries rfl
          obtain ⟨v, hv⟩ := hstar.reads
          exact ⟨met'', d, caps'', .head hp hstar, htries,
            .inr (Nat.lt_of_lt_of_le hlt hv.offset_le)⟩
      · cases h with
        | done h => exact ⟨_, c, caps, .refl, h, .inl (Set.subset_insert mark met)⟩

/-- Behind a round that leads nowhere else, a loop is left. -/
theorem again_of_met {greedy : Bool} (hmark : mark ∈ met)
    (h : Tries met (.again mark p greedy :: rest) c caps (some found)) :
    Tries met rest c caps (some found) := by
  cases h with
  | again h =>
    rcases of_prefer h with h | h
    · cases h with
      | plus hmark' => exact absurd hmark hmark'
    · cases h with
      | done h => exact h

theorem behind_again {greedy : Bool}
    (ih : ∀ {rest met c caps}, Tries met (p :: rest) c caps (some found) →
      LeavesBehind p rest met c found)
    (h : Tries met (.again mark p greedy :: rest) c caps (some found)) :
    LeavesBehind (.again mark p greedy) rest met c found := by
  induction hn : c.ahead.length using Nat.strongRecOn generalizing c met caps with
  | ind n ihn =>
    cases h with
    | again h =>
      rcases of_prefer h with h | h
      · cases h with
        | plus hmark h =>
          obtain ⟨met', e, caps', hp, htries, hon⟩ := ih h
          by_cases hmet : mark ∈ met'
          · have hrest := again_of_met hmet htries
            exact ⟨met', e, caps', .single hp, hrest,
              hon.imp_left (Set.subset_insert mark met).trans⟩
          · have hlt := lt_of_goesOn hon hmet
            obtain ⟨u, hu⟩ := hp.reads
            obtain ⟨met'', d, caps'', hagain, htries, -⟩ :=
              ihn _ (hn ▸ hu.length_lt (hu.ne_nil hlt)) htries rfl
            obtain ⟨v, hv⟩ := hagain.reads
            exact ⟨met'', d, caps'', .head hp hagain, htries,
              .inr (Nat.lt_of_lt_of_le hlt hv.offset_le)⟩
      · cases h with
        | done h => exact ⟨met, c, caps, .refl, h, .inl subset_rfl⟩

/-- If something comes of trying a route and what is left behind it, the route leads to a place from
which it comes of what is left. -/
theorem behind (h : Tries met (r :: rest) c caps (some found)) :
    LeavesBehind r rest met c found := by
  induction r generalizing rest met c caps with
  | done => cases h with
    | done h => exact ⟨met, c, caps, rfl, h, .inl subset_rfl⟩
  | text cs => exact behind_text h
  | one s => cases h with
    | @one _ _ x _ _ ahead _ _ hx hs h =>
      refine ⟨∅, _, caps, ⟨x, hs, ahead, hx, rfl⟩, h, .inr ?_⟩
      have := x.utf8Size_pos
      rw [Cursor.offset_past]
      omega
  | look mark l => cases h with
    | look hmark hl h => exact ⟨_, c, caps, ⟨hl, rfl⟩, h, .inl (Set.subset_insert mark met)⟩
  | record slot => cases h with
    | record h => exact ⟨met, c, _, rfl, h, .inl subset_rfl⟩
  | meet mark => cases h with
    | meet hmark h => exact ⟨_, c, caps, rfl, h, .inl (Set.subset_insert mark met)⟩
  | seq p q ihp ihq => cases h with
    | seq h => exact (ihp h).of_seq ihq
  | fork p q ihp ihq => cases h with
    | first h =>
      obtain ⟨met', d, caps', hp, h⟩ := ihp h
      exact ⟨met', d, caps', .inl hp, h⟩
    | second _ h =>
      obtain ⟨met', d, caps', hq, h⟩ := ihq h
      exact ⟨met', d, caps', .inr hq, h⟩
  | star mark p greedy ih => exact behind_star ih h
  | plus mark p greedy ih => cases h with
    | plus hmark h =>
      obtain ⟨met', e, caps', hp, h, hon⟩ := ih h
      obtain ⟨met'', d, caps'', hagain, h, hon'⟩ := behind_again ih h
      obtain ⟨u, hu⟩ := hp.reads
      obtain ⟨v, hv⟩ := hagain.reads
      have hall := hon.trans hon' hu.offset_le hv.offset_le
      exact ⟨met'', d, caps'', ⟨e, hp, hagain⟩, h,
        hall.imp_left (Set.subset_insert mark met).trans⟩
  | again mark p greedy ih => exact behind_again ih h

end Tries

/-! ### Routes that surely come to their end -/

/-- The marks on a way through a route that reads nothing and asks for nothing, if one is found. -/
def idleMarks? : Route → Option (List Nat)
  | .done | .record _ | .again _ _ _ => some []
  | .meet mark | .star mark _ _ => some [mark]
  | .seq p q => p.idleMarks?.bind fun ms => q.idleMarks?.map (ms ++ ·)
  | .fork p q => p.idleMarks?.or q.idleMarks?
  | _ => none

/-- Whether routes come to their end wherever they are tried, some marks having been met. -/
def surelyEnd (ms : List Nat) : List Route → Bool
  | [] => true
  | r :: rs => r.idleMarks?.any fun ns => decide (ms ++ ns).Nodup && surelyEnd (ms ++ ns) rs

theorem Tries.behind_none (h : Tries met (r :: rest) c caps none) (hr : r.idleMarks? = some ms)
    (hnodup : ms.Nodup) (hmet : ∀ m ∈ ms, m ∉ met) :
    ∃ met' caps', Tries met' rest c caps' none ∧ ∀ m ∈ met', m ∈ met ∨ m ∈ ms := by
  induction r generalizing rest met caps ms with
  | done => cases h with
    | done h => exact ⟨met, caps, h, fun m => .inl⟩
    | blocked hr => cases hr
  | record slot => cases h with
    | record h => exact ⟨met, _, h, fun m => .inl⟩
    | blocked hr => cases hr
  | again mark p greedy _ => cases h with
    | again h => cases (of_prefer_none h).2 with
      | done h => exact ⟨met, caps, h, fun m => .inl⟩
      | blocked hr => cases hr
    | blocked hr => cases hr
  | meet mark =>
    obtain rfl := Option.some.inj hr
    cases h with
    | meet hmark h => exact ⟨_, caps, h, fun m hm => hm.symm.imp_right List.mem_singleton.2⟩
    | blocked hmark hmem =>
      exact absurd (Option.some.inj hmark ▸ hmem) (hmet mark List.mem_cons_self)
  | star mark p greedy _ =>
    obtain rfl := Option.some.inj hr
    cases h with
    | star hmark h => cases (of_prefer_none h).2 with
      | done h => exact ⟨_, caps, h, fun m hm => hm.symm.imp_right List.mem_singleton.2⟩
      | blocked hr => cases hr
    | blocked hmark hmem =>
      exact absurd (Option.some.inj hmark ▸ hmem) (hmet mark List.mem_cons_self)
  | seq p q ihp ihq =>
    obtain ⟨ms₁, hp, hr⟩ := Option.bind_eq_some_iff.1 hr
    obtain ⟨ms₂, hq, rfl⟩ := Option.map_eq_some_iff.1 hr
    obtain ⟨hnodup₁, hnodup₂, hapart⟩ := List.nodup_append.1 hnodup
    cases h with
    | seq h =>
      obtain ⟨met', caps', h, hsub⟩ :=
        ihp h hp hnodup₁ fun m hm => hmet m (List.mem_append_left ms₂ hm)
      have hmet' : ∀ m ∈ ms₂, m ∉ met' := by
        intro m hm hm'
        rcases hsub m hm' with hm' | hm'
        · exact hmet m (List.mem_append_right ms₁ hm) hm'
        · exact hapart m hm' m hm rfl
      obtain ⟨met'', caps'', h, hsub'⟩ := ihq h hq hnodup₂ hmet'
      refine ⟨met'', caps'', h, fun m hm => ?_⟩
      rcases hsub' m hm with hm | hm
      · exact (hsub m hm).imp_right (List.mem_append_left ms₂)
      · exact .inr (List.mem_append_right ms₁ hm)
    | blocked hr => cases hr
  | fork p q ihp ihq => cases h with
    | second hp hq =>
      rcases Option.or_eq_some_iff.1 hr with hr | ⟨-, hr⟩
      · exact ihp hp hr hnodup hmet
      · exact ihq hq hr hnodup hmet
    | blocked hr => cases hr
  | text _ | one _ | look _ _ | plus _ _ _ _ => cases hr

/-- Routes that surely come to their end do not fail. -/
theorem Tries.not_none (h : surelyEnd ms rs = true) (hmet : ∀ m ∈ met, m ∈ ms) :
    ¬ Tries met rs c caps none := by
  intro htries
  induction rs generalizing ms met caps with
  | nil => cases htries
  | cons r rs ih =>
    obtain ⟨ns, hr, h⟩ := (Option.any_eq_true _ _).1 h
    rw [Bool.and_eq_true, decide_eq_true_eq] at h
    obtain ⟨-, hnodup, hapart⟩ := List.nodup_append.1 h.1
    obtain ⟨met', caps', htries, hsub⟩ :=
      htries.behind_none hr hnodup fun m hm hm' => hapart m (hmet m hm') m hm rfl
    refine ih h.2 (fun m hm => ?_) htries
    rcases hsub m hm with hm | hm
    · exact List.mem_append_left ns (hmet m hm)
    · exact List.mem_append_right ms hm

/-! ### Greedy loops -/

/-- Ranges of characters that a route surely takes with what is left behind it. -/
def surelyRead (rest : List Route) : Route → Intervals
  | .one s => if CharSet.inOrder s.ranges && surelyEnd [] rest then s.ranges else []
  | .fork p q => p.surelyRead rest ++ q.surelyRead rest
  | .seq p q => p.surelyRead (q :: rest)
  | _ => []

theorem Tries.not_meets_surelyRead (h : Tries met (r :: rest) c caps none)
    (hahead : c.ahead = ch :: ahead) : ¬ CharSet.Meets ch.toNat (r.surelyRead rest) := by
  intro hmeets
  induction r generalizing rest met caps with
  | one s =>
    rw [surelyRead] at hmeets
    split at hmeets
    case isFalse => exact not_meets_nil hmeets
    next hsure =>
    rw [Bool.and_eq_true] at hsure
    have hordered := CharSet.ordered_of_inOrder hsure.1
    have hhas : s.has ch = true := (CharSet.covers_iff hordered).2 hmeets
    cases h with
    | one _ _ h => exact not_none hsure.2 (by simp) h
    | oneFails hx => exact Bool.noConfusion (hhas.symm.trans (hx ch ahead hahead))
    | blocked hr => cases hr
  | fork p q ihp ihq => cases h with
    | second hp hq => exact (meets_append.1 hmeets).elim (ihp hp) (ihq hq)
    | blocked hr => cases hr
  | seq p q ihp _ => cases h with
    | seq h => exact ihp h hmeets
    | blocked hr => cases hr
  | _ => exact not_meets_nil hmeets

/-- A greedy loop ends where a round would not surely take the character ahead. -/
theorem Tries.exhausts (h : Tries met (.star mark p true :: rest) c caps (some found)) :
    ∃ met' d caps', (Route.star mark p true).Leads c d ∧ Tries met' rest d caps' (some found) ∧
      ∀ ch ahead, d.ahead = ch :: ahead →
        ¬ CharSet.Meets ch.toNat (p.surelyRead (.star mark p true :: rest)) := by
  induction hn : c.ahead.length using Nat.strongRecOn generalizing c met caps with
  | ind n ihn =>
    cases h with
    | star hmark h => cases h with
      | first h => cases h with
        | seq h =>
          obtain ⟨met', e, caps', hp, htries, hon⟩ := h.behind
          have hlt : c.offset < e.offset := by
            cases htries with
            | star hmark' => exact lt_of_goesOn hon hmark'
          obtain ⟨u, hu⟩ := hp.reads
          obtain ⟨met'', d, caps'', hstar, h⟩ :=
            ihn _ (hn ▸ hu.length_lt (hu.ne_nil hlt)) htries rfl
          exact ⟨met'', d, caps'', .head hp hstar, h⟩
      | second hround h => cases h with
        | done h => cases hround with
          | seq hround =>
            exact ⟨_, c, caps, .refl, h, fun ch ahead => hround.not_meets_surelyRead⟩
          | blocked hr => cases hr

/-! ### Ends outside of words -/

/-- Whether the preferred way through a route, with what is left behind it, comes to a place where
no word goes on. -/
def settles : List Route → Route → Bool
  | _, .text cs => !cs.isEmpty && cs.getLast?.all wordIntervals.lacks
  | _, .one s => CharSet.apart s.ranges wordIntervals
  | _, .look _ l => l == .wordBoundary
  | rest, .seq p q =>
    settles rest q || (q.lastOff wordIntervals && settles (q :: rest) p)
  | rest, .fork p q => settles rest p && settles rest q
  | rest, .star mark p true =>
    CharSet.lieIn wordIntervals (p.surelyRead (.star mark p true :: rest))
  | _, .plus _ p _ => !p.skips && p.lastOff wordIntervals
  | _, _ => false

end Route

/-- A place is inside of a word. -/
def Cursor.InWord (c : Cursor) : Prop :=
  isWordSide c.before = true ∧ isWordSide c.ahead.head? = true

namespace Route

variable {p q : Route} {rest : List Route} {c d : Cursor} {u : List Char} {met : Set Nat}
  {caps : Captures} {found : Captures × Cursor}

/-- Behind characters that end with no word character no word goes on. -/
theorem not_inWord_of_endsOff (hu : c.Reads u d) (hne : u ≠ []) (hoff : EndsOff wordIntervals u) :
    ¬ d.InWord := by
  rintro ⟨hbefore, -⟩
  have hlast := List.getLast?_eq_some_getLast hne
  rw [hu.before, hlast] at hbefore
  have hword := has_wordIntervals_iff.2 (show isWordChar (u.getLast hne) = true from hbefore)
  exact Bool.noConfusion (hword.symm.trans (hoff _ hlast))

theorem Leads.not_inWord (h : p.Leads c d) (hskips : p.skips = false)
    (hoff : p.lastOff wordIntervals = true) : ¬ d.InWord := by
  obtain ⟨u, hu, hends⟩ := h.exists_endsOff hoff
  exact not_inWord_of_endsOff hu (hu.ne_nil (h.advances hskips)) hends

theorem not_inWord_of_wordBoundary (h : Look.wordBoundary.holds c = true) : ¬ c.InWord := by
  rintro ⟨hbefore, hhead⟩
  simp [Look.holds, hbefore, hhead] at h

/-- The preferred way through a route that settles comes to a place where no word goes on. -/
theorem Tries.settled (h : Tries met (p :: rest) c caps (some found))
    (hp : p.settles rest = true) :
    ∃ met' d caps', p.Leads c d ∧ Tries met' rest d caps' (some found) ∧ ¬ d.InWord := by
  fun_induction settles rest p generalizing met c caps with
  | case1 rest cs =>
    obtain ⟨met', d, caps', hlead, htries, -⟩ := h.behind
    rw [Bool.and_eq_true, Bool.not_eq_true'] at hp
    exact ⟨met', d, caps', hlead, htries, hlead.not_inWord hp.1 hp.2⟩
  | case2 rest s =>
    obtain ⟨met', d, caps', hlead, htries, -⟩ := h.behind
    exact ⟨met', d, caps', hlead, htries, hlead.not_inWord rfl hp⟩
  | case3 rest mark l =>
    obtain ⟨met', d, caps', hlead, htries, -⟩ := h.behind
    obtain ⟨hl, rfl⟩ := hlead
    rw [beq_iff_eq.1 hp] at hl
    exact ⟨met', c, caps', ⟨by rwa [beq_iff_eq.1 hp], rfl⟩, htries, not_inWord_of_wordBoundary hl⟩
  | case4 rest p q ihq ihp =>
    cases h with
    | seq h =>
      rw [Bool.or_eq_true, Bool.and_eq_true] at hp
      rcases hp with hq | ⟨hoff, hp⟩
      · obtain ⟨met', e, caps', hlead, htries, -⟩ := h.behind
        obtain ⟨met'', d, caps'', hlead', htries, hout⟩ := ihq htries hq
        exact ⟨met'', d, caps'', ⟨e, hlead, hlead'⟩, htries, hout⟩
      · obtain ⟨met', e, caps', hlead, htries, hout⟩ := ihp h hp
        obtain ⟨met'', d, caps'', hlead', htries, -⟩ := htries.behind
        refine ⟨met'', d, caps'', ⟨e, hlead, hlead'⟩, htries, ?_⟩
        -- behind what does not read, the place is the same
        obtain ⟨v, hv, hends⟩ := hlead'.exists_endsOff hoff
        by_cases hne : v = []
        · subst hne
          exact Cursor.reads_nil.1 hv ▸ hout
        · exact not_inWord_of_endsOff hv hne hends
  | case5 rest p q ihp ihq =>
    rw [Bool.and_eq_true] at hp
    cases h with
    | first h =>
      obtain ⟨met', d, caps', hlead, h⟩ := ihp h hp.1
      exact ⟨met', d, caps', .inl hlead, h⟩
    | second _ h =>
      obtain ⟨met', d, caps', hlead, h⟩ := ihq h hp.2
      exact ⟨met', d, caps', .inr hlead, h⟩
  | case6 rest mark p =>
    obtain ⟨met', d, caps', hlead, htries, hmore⟩ := h.exhausts
    refine ⟨met', d, caps', hlead, htries, fun hin => ?_⟩
    cases hahead : d.ahead with
    | nil =>
      rw [Cursor.InWord, hahead] at hin
      exact Bool.noConfusion hin.2
    | cons ch ahead =>
      rw [Cursor.InWord, hahead] at hin
      have hword := has_wordIntervals_iff.2 (show isWordChar ch = true from hin.2)
      exact hmore ch ahead hahead (CharSet.meets_of_lieIn hp (Intervals.has_iff_meets.1 hword))
  | case7 rest mark p greedy =>
    obtain ⟨met', d, caps', hlead, htries, -⟩ := h.behind
    rw [Bool.and_eq_true, Bool.not_eq_true'] at hp
    exact ⟨met', d, caps', hlead, htries, hlead.not_inWord hp.1 hp.2⟩
  | case8 => cases hp

end Route

end Highlighting
