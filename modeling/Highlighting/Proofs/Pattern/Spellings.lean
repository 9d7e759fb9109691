import Highlighting.Proofs.Pattern.CharSet
import Highlighting.Proofs.Pattern.Readings
import Highlighting.Text.Blank

/-!
# What routes read as a whole

More computed answers to what a route reads, for all that it reads from one place to another.
`Route.mayRead` is on the safe side and says that a route may read just a word,
`Route.spellings?` lists the words of a route without sets and loops, and `Route.isRun` says that a
route reads characters of a set only.  `Route.takes` is on the other side: a route that takes a
character leads over it wherever it stands.
-/

namespace Highlighting

/-- A set that is built from ranges has the characters that lie in the ranges. -/
theorem CharSet.has_ofRanges_eq (rs : Intervals) (ch : Char) :
    (CharSet.ofRanges rs).has ch = rs.has ch := by
  rw [Bool.eq_iff_iff, CharSet.has_ofRanges, Intervals.has_iff]
  exact Iff.rfl

namespace Route

variable {r p q : Route} {rs : List Route} {c d e : Cursor} {ch : Char} {w : List Char}

theorem LeadAll.reaches (h : LeadAll rs c d) : c.Reaches d := by
  induction rs generalizing c with
  | nil => exact h ▸ .refl c
  | cons r rs ih =>
    obtain ⟨e, hr, hrs⟩ := h
    exact Cursor.Reaches.trans hr.reads (ih hrs)

theorem GoesOnAfter.advances {left : List (List Route)} (h : GoesOnAfter left c d ch) :
    c.offset < d.offset := by
  obtain ⟨rs, -, e, hread, hlead⟩ := h
  have hle := hlead.reaches.offset_le
  have hpos := ch.utf8Size_pos
  rw [hread.offset, byteSize_cons, byteSize_nil] at hle
  omega

/-- A route that cannot skip leads forward. -/
theorem Leads.advances (h : r.Leads c d) (hr : r.skips = false) : c.offset < d.offset := by
  rcases h.split_first with ⟨-, hskips⟩ | ⟨ch, hch⟩
  · rw [hr] at hskips
    cases hskips
  · exact hch.advances

/-! ### Single words -/

/-- Whether routes may read just a word. -/
def mayReadAll : List Char → List Route → Bool
  | [], rs => rs.all skips
  | ch :: w, rs => (afterAll ch rs).any (mayReadAll w)

/-- Whether a route may read just a word. -/
def mayRead (r : Route) (w : List Char) : Bool := mayReadAll w [r]

theorem mayReadAll_of_leadAll (h : LeadAll rs c d) (hw : c.Reads w d) : mayReadAll w rs = true := by
  induction w generalizing c rs with
  | nil =>
    obtain rfl : c = d := hw
    rcases leadAll_split_first h with ⟨-, hall⟩ | ⟨ch, hch⟩
    · exact hall
    · exact absurd hch.advances (Nat.lt_irrefl _)
  | cons x w ih =>
    obtain ⟨rest, hahead, hw⟩ := hw
    rcases leadAll_split_first h with ⟨rfl, -⟩ | ⟨ch, rs', hrs', e, hread, hlead⟩
    · have hle := hw.offset_le
      have hpos := x.utf8Size_pos
      rw [Cursor.offset_past] at hle
      omega
    · obtain ⟨rfl, -⟩ := List.cons.inj (hahead.symm.trans hread.ahead)
      obtain rfl := (Cursor.reads_past hahead).unique hread
      rw [mayReadAll, List.any_eq_true]
      exact ⟨rs', hrs', ih hlead hw⟩

/-- What a route reads from one place to another is a word that it may read. -/
theorem Leads.mayRead (h : r.Leads c d) (hw : c.Reads w d) : r.mayRead w = true :=
  mayReadAll_of_leadAll (leadAll_singleton.2 h) hw

/-! ### All words of a route -/

/-- The words that a route reads, if it has neither sets nor loops. -/
def spellings? : Route → Option (List (List Char))
  | .text cs => some [cs]
  | .done | .look _ _ | .record _ | .meet _ => some [[]]
  | .seq p q =>
    match p.spellings?, q.spellings? with
    | some us, some vs => some (us.flatMap fun u => vs.map (u ++ ·))
    | _, _ => none
  | .fork p q =>
    match p.spellings?, q.spellings? with
    | some us, some vs => some (us ++ vs)
    | _, _ => none
  | _ => none

theorem Leads.spelling (h : r.Leads c d) {ws : List (List Char)} (hr : r.spellings? = some ws) :
    ∃ w ∈ ws, c.Reads w d := by
  fun_induction spellings? r generalizing c d ws with
  | case1 cs =>
    obtain rfl := Option.some.inj hr
    exact ⟨cs, List.mem_singleton_self cs, h⟩
  | case2 | case4 | case5 =>
    obtain rfl := Option.some.inj hr
    exact ⟨[], List.mem_singleton_self [], h⟩
  | case3 =>
    obtain rfl := Option.some.inj hr
    exact ⟨[], List.mem_singleton_self [], h.2⟩
  | case6 p q us vs hq hp ihp ihq =>
    obtain rfl := Option.some.inj hr
    obtain ⟨e, hce, hed⟩ := h
    obtain ⟨u, hu, hreads⟩ := ihp hce hp
    obtain ⟨v, hv, hreads'⟩ := ihq hed hq
    exact ⟨u ++ v, List.mem_flatMap.2 ⟨u, hu, List.mem_map_of_mem hv⟩, hreads.trans hreads'⟩
  | case7 => cases hr
  | case8 p q us vs hq hp ihp ihq =>
    obtain rfl := Option.some.inj hr
    rcases h with h | h
    · obtain ⟨u, hu, hreads⟩ := ihp h hp
      exact ⟨u, List.mem_append_left vs hu, hreads⟩
    · obtain ⟨v, hv, hreads⟩ := ihq h hq
      exact ⟨v, List.mem_append_right us hv, hreads⟩
  | case9 | case10 => cases hr

theorem Leads.mem_spellings (h : r.Leads c d) {ws : List (List Char)} (hr : r.spellings? = some ws)
    {u : List Char} (hu : c.Reads u d) : u ∈ ws := by
  obtain ⟨w, hw, hread⟩ := h.spelling hr
  rwa [hu.text_unique hread]

/-! ### Characters of a set -/

/-- Whether a route is a loop over the characters of some ranges. -/
def isRun (rs : Intervals) : Route → Bool
  | .star _ (.one s) _ | .plus _ (.one s) _ => s == .ofRanges rs
  | _ => false

theorem reads_rounds {s : CharSet} (h : Relation.ReflTransGen (Route.one s).Leads c d) :
    ∃ u, c.Reads u d ∧ ∀ ch ∈ u, s.has ch = true := by
  induction h using Relation.ReflTransGen.head_induction_on with
  | refl => exact ⟨[], rfl, by simp⟩
  | head hp _ ih =>
    obtain ⟨x, hx, hread⟩ := hp
    obtain ⟨u, hu, hall⟩ := ih
    exact ⟨x :: u, hread.trans hu, List.forall_mem_cons.2 ⟨hx, hall⟩⟩

/-- A run reads characters of its ranges. -/
theorem Leads.reads_run {rs : Intervals} (h : r.Leads c d) (hr : r.isRun rs = true) :
    ∃ u, c.Reads u d ∧ ∀ ch ∈ u, rs.has ch = true := by
  unfold isRun at hr
  split at hr
  · next s _ =>
    obtain rfl := beq_iff_eq.1 hr
    obtain ⟨u, hu, hall⟩ := reads_rounds h
    exact ⟨u, hu, fun ch hch => CharSet.has_ofRanges_eq rs ch ▸ hall ch hch⟩
  · next s _ =>
    obtain rfl := beq_iff_eq.1 hr
    obtain ⟨e, ⟨x, hx, hread⟩, hrest⟩ := h
    obtain ⟨u, hu, hall⟩ := reads_rounds hrest
    refine ⟨x :: u, hread.trans hu, List.forall_mem_cons.2 ⟨?_, fun ch hch => ?_⟩⟩
    · exact CharSet.has_ofRanges_eq rs x ▸ hx
    · exact CharSet.has_ofRanges_eq rs ch ▸ hall ch hch
  · cases hr

/-! ### Characters that a route takes -/

/-- Whether a route leads from every place to itself. -/
def idles : Route → Bool
  | .text cs => cs.isEmpty
  | .one _ | .look _ _ => false
  | .seq p q => p.idles && q.idles
  | .fork p q => p.idles || q.idles
  | .plus _ p _ => p.idles
  | _ => true

/-- Whether a route leads over a character wherever it stands. -/
def takes (ch : Char) : Route → Bool
  | .text cs => cs == [ch]
  | .one s => s.has ch
  | .seq p q => (p.takes ch && q.idles) || (p.idles && q.takes ch)
  | .fork p q => p.takes ch || q.takes ch
  | .star _ p _ | .plus _ p _ | .again _ p _ => p.takes ch
  | _ => false

theorem leads_of_idles (h : r.idles = true) (c : Cursor) : r.Leads c c := by
  induction r with
  | done | record _ | meet _ => rfl
  | text cs =>
    obtain rfl := List.isEmpty_iff.1 h
    rfl
  | one _ | look _ _ => cases h
  | seq p q ihp ihq =>
    obtain ⟨hp, hq⟩ := Bool.and_eq_true_iff.1 h
    exact ⟨c, ihp hp, ihq hq⟩
  | fork p q ihp ihq =>
    rcases Bool.or_eq_true_iff.1 h with hp | hq
    · exact .inl (ihp hp)
    · exact .inr (ihq hq)
  | star _ p _ _ | again _ p _ _ => exact .refl
  | plus _ p _ ih => exact ⟨c, ih h, .refl⟩

/-- A route that takes a character leads over it. -/
theorem leads_of_takes (h : r.takes ch = true) (hread : c.Reads [ch] d) : r.Leads c d := by
  induction r with
  | done | record _ | meet _ | look _ _ => cases h
  | text cs =>
    obtain rfl := beq_iff_eq.1 h
    exact hread
  | one s => exact ⟨ch, h, hread⟩
  | seq p q ihp ihq =>
    simp only [takes, Bool.or_eq_true, Bool.and_eq_true] at h
    rcases h with ⟨hp, hq⟩ | ⟨hp, hq⟩
    · exact ⟨d, ihp hp, leads_of_idles hq d⟩
    · exact ⟨c, leads_of_idles hp c, ihq hq⟩
  | fork p q ihp ihq =>
    rcases Bool.or_eq_true_iff.1 h with hp | hq
    · exact .inl (ihp hp)
    · exact .inr (ihq hq)
  | star _ p _ ih | again _ p _ ih => exact .single (ih h)
  | plus _ p _ ih => exact ⟨d, ih h, .refl⟩

end Route

end Highlighting
