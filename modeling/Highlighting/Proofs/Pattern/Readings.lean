import Highlighting.Proofs.Pattern.Route

/-!
# What routes may read

Computed answers to what a route may read, each on the safe side: conditions are taken to
hold, and loops may go on for ever.

* `Route.refuses w` says that a route leads nowhere where the text goes on with the word `w`.  It
  follows the word character by character, keeping what may be left of the route.
* A *stop* is a character that ends the run of a declarator in front of its parenthesis.
  `Route.opens` says that a route may read an opening parenthesis before any other stop, and
  `Route.passes` that it may end before it reads a stop.  A route that does not open stays in front
  of the parenthesis (`Route.Leads.confined`).
* `Route.avoids` says that a route reads none of some characters.
* `Route.closes` says that all a route reads in front of an opening parenthesis, its last character,
  is free of stops.
-/

namespace Highlighting

namespace Route

variable {r p q : Route} {rest rs rs' : List Route} {c d e : Cursor} {ch : Char}
  {u v w ahead : List Char}

theorem leadAll_append : LeadAll (rs ++ rs') c d ↔ ∃ e, LeadAll rs c e ∧ LeadAll rs' e d := by
  induction rs generalizing c with
  | nil => simp
  | cons r rs ih =>
    simp only [List.cons_append, leadAll_cons, ih]
    constructor
    · rintro ⟨e, hr, e', hrs, h⟩
      exact ⟨e', ⟨e, hr, hrs⟩, h⟩
    · rintro ⟨e', ⟨e, hr, hrs⟩, h⟩
      exact ⟨e, hr, e', hrs, h⟩

/-! ### Words that a route refuses -/

/-- Whether a route may lead somewhere without reading. -/
def skips : Route → Bool
  | .text cs => cs.isEmpty
  | .one _ => false
  | .seq p q => p.skips && q.skips
  | .fork p q => p.skips || q.skips
  | .plus _ p _ => p.skips
  | _ => true

/-- What may be left of a route behind a character. -/
def after (ch : Char) : Route → List (List Route)
  | .text (x :: xs) => if x = ch then [[.text xs]] else []
  | .one s => if s.has ch then [[]] else []
  | .seq p q => (p.after ch).map (· ++ [q]) ++ if p.skips then q.after ch else []
  | .fork p q => p.after ch ++ q.after ch
  | .star k p greedy => (p.after ch).map (· ++ [.star k p greedy])
  | .plus k p greedy | .again k p greedy => (p.after ch).map (· ++ [.again k p greedy])
  | _ => []

/-- What may be left of routes behind a character. -/
def afterAll (ch : Char) : List Route → List (List Route)
  | [] => []
  | r :: rest => (r.after ch).map (· ++ rest) ++ if r.skips then afterAll ch rest else []

/-- Whether routes lead nowhere where the text goes on with a word. -/
def refuseAll : List Char → List Route → Bool
  | [], _ => false
  | ch :: w, rs => !rs.all skips && (afterAll ch rs).all (refuseAll w)

/-- Whether a route leads nowhere where the text goes on with a word. -/
def refuses (r : Route) (w : List Char) : Bool := refuseAll w [r]

/-- What is left of routes goes on behind a character from one place to another. -/
def GoesOnAfter (left : List (List Route)) (c d : Cursor) (ch : Char) : Prop :=
  ∃ rs ∈ left, ∃ e, c.Reads [ch] e ∧ LeadAll rs e d

theorem GoesOnAfter.append {left : List (List Route)} (h : GoesOnAfter left c e ch)
    (hrest : LeadAll rest e d) : GoesOnAfter (left.map (· ++ rest)) c d ch := by
  obtain ⟨rs, hrs, e', hread, hlead⟩ := h
  exact ⟨rs ++ rest, List.mem_map_of_mem hrs, e', hread, leadAll_append.2 ⟨e, hlead, hrest⟩⟩

theorem GoesOnAfter.mono {left left' : List (List Route)} (h : GoesOnAfter left c d ch)
    (hsub : ∀ rs ∈ left, rs ∈ left') : GoesOnAfter left' c d ch := by
  obtain ⟨rs, hrs, h⟩ := h
  exact ⟨rs, hsub rs hrs, h⟩

theorem goesOnAfter_rounds (loop : Route)
    (hloop : ∀ {c d}, loop.Leads c d ↔ Relation.ReflTransGen p.Leads c d)
    (ih : ∀ {c d}, p.Leads c d → c = d ∨ ∃ ch, GoesOnAfter (p.after ch) c d ch)
    (h : Relation.ReflTransGen p.Leads c d) :
    c = d ∨ ∃ ch, GoesOnAfter ((p.after ch).map (· ++ [loop])) c d ch := by
  induction h using Relation.ReflTransGen.head_induction_on with
  | refl => exact .inl rfl
  | head hp hs ihs =>
    rcases ih hp with rfl | ⟨ch, hch⟩
    · exact ihs
    · exact .inr ⟨ch, hch.append (leadAll_singleton.2 (hloop.2 hs))⟩

/-- A route leads somewhere without reading, or it reads a character and goes on behind it. -/
theorem Leads.split_first (h : r.Leads c d) :
    (c = d ∧ r.skips = true) ∨ ∃ ch, GoesOnAfter (r.after ch) c d ch := by
  induction r generalizing c d with
  | done | record _ | meet _ => exact .inl ⟨h, rfl⟩
  | look _ l => exact .inl ⟨h.2, rfl⟩
  | text cs =>
    cases cs with
    | nil => exact .inl ⟨h, rfl⟩
    | cons x xs =>
      obtain ⟨rest, hahead, h⟩ := h
      refine .inr ⟨x, [.text xs], by simp [after], c.past x rest, Cursor.reads_past hahead, ?_⟩
      exact leadAll_singleton.2 h
  | one s =>
    obtain ⟨ch, hch, h⟩ := h
    exact .inr ⟨ch, [], by simp [after, hch], d, h, rfl⟩
  | seq p q ihp ihq =>
    obtain ⟨e, hp, hq⟩ := h
    rcases ihp hp with ⟨rfl, hskips⟩ | ⟨ch, hch⟩
    · rcases ihq hq with ⟨rfl, hskips'⟩ | ⟨ch, hch⟩
      · exact .inl ⟨rfl, by simp [skips, hskips, hskips']⟩
      · refine .inr ⟨ch, hch.mono ?_⟩
        intro rs hrs
        simp [after, hskips, hrs]
    · refine .inr ⟨ch, (hch.append (leadAll_singleton.2 hq)).mono ?_⟩
      intro rs hrs
      exact List.mem_append_left _ hrs
  | fork p q ihp ihq =>
    rcases h with h | h
    · rcases ihp h with ⟨rfl, hskips⟩ | ⟨ch, hch⟩
      · exact .inl ⟨rfl, by simp [skips, hskips]⟩
      · exact .inr ⟨ch, hch.mono fun rs hrs => List.mem_append_left _ hrs⟩
    · rcases ihq h with ⟨rfl, hskips⟩ | ⟨ch, hch⟩
      · exact .inl ⟨rfl, by simp [skips, hskips]⟩
      · exact .inr ⟨ch, hch.mono fun rs hrs => List.mem_append_right _ hrs⟩
  | star k p greedy ih =>
    rcases goesOnAfter_rounds (.star k p greedy) Iff.rfl
      (fun h => (ih h).imp_left And.left) h with rfl | h
    · exact .inl ⟨rfl, rfl⟩
    · exact .inr h
  | again k p greedy ih =>
    rcases goesOnAfter_rounds (.again k p greedy) Iff.rfl
      (fun h => (ih h).imp_left And.left) h with rfl | h
    · exact .inl ⟨rfl, rfl⟩
    · exact .inr h
  | plus k p greedy ih =>
    obtain ⟨e, hp, hs⟩ := h
    rcases ih hp with ⟨rfl, hskips⟩ | ⟨ch, hch⟩
    · rcases goesOnAfter_rounds (.again k p greedy) Iff.rfl
        (fun h => (ih h).imp_left And.left) hs with rfl | h
      · exact .inl ⟨rfl, hskips⟩
      · exact .inr h
    · exact .inr ⟨ch, hch.append (leadAll_singleton.2 hs)⟩

theorem leadAll_split_first (h : LeadAll rs c d) :
    (c = d ∧ rs.all skips = true) ∨ ∃ ch, GoesOnAfter (afterAll ch rs) c d ch := by
  induction rs generalizing c with
  | nil => exact .inl ⟨h, rfl⟩
  | cons r rest ih =>
    obtain ⟨e, hr, hrest⟩ := h
    rcases hr.split_first with ⟨rfl, hskips⟩ | ⟨ch, hch⟩
    · rcases ih hrest with ⟨rfl, hall⟩ | ⟨ch, hch⟩
      · exact .inl ⟨rfl, by simp [hskips, hall]⟩
      · refine .inr ⟨ch, hch.mono ?_⟩
        intro rs hrs
        simp [afterAll, hskips, hrs]
    · refine .inr ⟨ch, (hch.append hrest).mono ?_⟩
      intro rs hrs
      exact List.mem_append_left _ hrs

theorem not_leadAll_of_refuseAll (h : refuseAll w rs = true) (hahead : c.ahead = w ++ ahead) :
    ¬ LeadAll rs c d := by
  intro hlead
  induction w generalizing c rs with
  | nil => simp [refuseAll] at h
  | cons x w ih =>
    simp only [refuseAll, Bool.and_eq_true, Bool.not_eq_true', List.all_eq_true] at h
    rcases leadAll_split_first hlead with ⟨-, hall⟩ | ⟨ch, rs', hrs', e, hread, hlead⟩
    · simp [hall] at h
    · have hreads := hread.ahead
      rw [hahead] at hreads
      obtain ⟨rfl, hrest⟩ := List.cons.inj hreads
      exact ih (h.2 rs' hrs') hrest.symm hlead

/-- Where the text goes on with a word that a route refuses, the route leads nowhere. -/
theorem not_leads_of_refuses (h : r.refuses w = true) (hahead : c.ahead = w ++ ahead) :
    ¬ r.Leads c d := by
  intro hlead
  exact not_leadAll_of_refuseAll h hahead (leadAll_singleton.2 hlead)

/-! ### Stops -/

/-- The characters that end the run of a declarator in front of its parenthesis, and those that
begin what might go on over it. -/
def stops : List Char := ['(', '\n', '"', '\'', '/', '#', '\\']

/-- Whether characters have an opening parenthesis before any other stop. -/
def opensIn : List Char → Bool
  | [] => false
  | x :: xs => if stops.contains x then x == '(' else opensIn xs

/-- Whether a route may end before it reads a stop. -/
def passes : Route → Bool
  | .text cs => cs.all (!stops.contains ·)
  | .seq p q => p.passes && q.passes
  | .fork p q => p.passes || q.passes
  | .plus _ p _ => p.passes
  | _ => true

/-- Whether a route may read an opening parenthesis before any other stop. -/
def opens : Route → Bool
  | .text cs => opensIn cs
  | .one s => s.has '('
  | .seq p q => p.opens || (p.passes && q.opens)
  | .fork p q => p.opens || q.opens
  | .star _ p _ | .plus _ p _ | .again _ p _ => p.opens
  | _ => false

/-- A text without stops goes on with an opening parenthesis. -/
def Runs (c : Cursor) (v : List Char) (e : Cursor) : Prop :=
  c.Reads (v ++ ['(']) e ∧ ∀ ch ∈ v, stops.contains ch = false

theorem Runs.past (h : Runs c (u ++ v) e) (hd : c.Reads u d) : Runs d v e := by
  obtain ⟨hreads, hclean⟩ := h
  rw [List.append_assoc] at hreads
  obtain ⟨d', hd', hv⟩ := Cursor.reads_append.1 hreads
  obtain rfl := hd.unique hd'
  exact ⟨hv, fun ch hch => hclean ch (List.mem_append_right u hch)⟩

/-- A character that is read is the parenthesis, or one in front of it that is no stop. -/
theorem Runs.head {x : Char} (h : Runs c v e) (hd : c.Reads [x] d) :
    (v = [] ∧ x = '(' ∧ d = e) ∨ ∃ v', v = x :: v' ∧ stops.contains x = false := by
  obtain ⟨hreads, hclean⟩ := h
  have hahead := hreads.ahead
  rw [hd.ahead] at hahead
  cases v with
  | nil =>
    obtain ⟨rfl, -⟩ := List.cons.inj hahead
    exact .inl ⟨rfl, rfl, hd.unique hreads⟩
  | cons y v =>
    obtain ⟨rfl, -⟩ := List.cons.inj hahead
    exact .inr ⟨v, rfl, hclean x List.mem_cons_self⟩

/-- A place in front of the parenthesis of a run, some of which has been read. -/
def StaysIn (v : List Char) (c d : Cursor) : Prop := ∃ u v', v = u ++ v' ∧ c.Reads u d

theorem StaysIn.refl (v : List Char) (c : Cursor) : StaysIn v c c := ⟨[], v, rfl, rfl⟩

theorem StaysIn.runs (h : StaysIn v c d) (hv : Runs c v e) : ∃ v', Runs d v' e ∧ ∀ x,
    StaysIn v' d x → StaysIn v c x := by
  obtain ⟨u, v', rfl, hd⟩ := h
  refine ⟨v', hv.past hd, ?_⟩
  rintro x ⟨u', v'', rfl, hx⟩
  exact ⟨u ++ u', v'', (List.append_assoc u u' v'').symm, hd.trans hx⟩

/-- What is read without an opening parenthesis lies in front of the next one. -/
theorem Runs.stays (h : Runs c v e) (hd : c.Reads u d) (hu : '(' ∉ u) : StaysIn v c d := by
  induction u generalizing c v with
  | nil => exact ⟨[], v, rfl, hd⟩
  | cons x u ih =>
    obtain ⟨rest, hahead, hd⟩ := hd
    have hx := Cursor.reads_past hahead
    rcases h.head hx with ⟨-, rfl, -⟩ | ⟨v', rfl, -⟩
    · exact absurd List.mem_cons_self hu
    · have hrest := ih (h.past (u := [x]) hx) hd (fun h => hu (List.mem_cons_of_mem x h))
      obtain ⟨u', v'', rfl, hd⟩ := hrest
      exact ⟨x :: u', v'', rfl, hx.trans hd⟩

theorem confined_text {cs : List Char} (h : opensIn cs = false) (hv : Runs c v e)
    (hd : c.Reads cs d) : cs.all (!stops.contains ·) = true ∧ StaysIn v c d := by
  induction cs generalizing c v with
  | nil => exact ⟨rfl, [], v, rfl, hd⟩
  | cons x cs ih =>
    obtain ⟨rest, hahead, hd⟩ := hd
    have hx := Cursor.reads_past hahead
    rcases hv.head hx with ⟨-, rfl, -⟩ | ⟨v', rfl, hstop⟩
    · simp [opensIn, stops] at h
    · simp only [opensIn, hstop, Bool.false_eq_true, if_false] at h
      obtain ⟨hall, u, v'', rfl, hd⟩ := ih h (hv.past (u := [x]) hx) hd
      exact ⟨by rw [List.all_cons, hstop, hall]; rfl, x :: u, v'', rfl, hx.trans hd⟩

theorem confined_rounds (h : Relation.ReflTransGen p.Leads c d)
    (ih : ∀ {c d v}, Runs c v e → p.Leads c d → StaysIn v c d) (hv : Runs c v e) :
    StaysIn v c d := by
  induction h using Relation.ReflTransGen.head_induction_on generalizing v with
  | refl => exact .refl v _
  | head hp _ ihs =>
    obtain ⟨v', hv', htrans⟩ := (ih hv hp).runs hv
    exact htrans _ (ihs hv')

/-- In front of a run's parenthesis a route that does not open stays there, and it does so only if
it passes. -/
theorem Leads.confined (h : r.Leads c d) (hopens : r.opens = false) (hv : Runs c v e) :
    r.passes = true ∧ StaysIn v c d := by
  induction r generalizing c d v with
  | done | record _ | meet _ =>
    obtain rfl : c = d := h
    exact ⟨rfl, .refl v c⟩
  | look _ l =>
    obtain ⟨-, rfl⟩ := h
    exact ⟨rfl, .refl v c⟩
  | text cs => exact confined_text hopens hv h
  | one s =>
    obtain ⟨x, hx, hd⟩ := h
    rcases hv.head hd with ⟨-, rfl, -⟩ | ⟨v', rfl, -⟩
    · simp [opens, hx] at hopens
    · exact ⟨rfl, [x], v', rfl, hd⟩
  | seq p q ihp ihq =>
    obtain ⟨y, hp, hq⟩ := h
    simp only [opens, Bool.or_eq_false_iff] at hopens
    obtain ⟨hpass, hstay⟩ := ihp hp hopens.1 hv
    rw [hpass, Bool.true_and] at hopens
    obtain ⟨v', hv', htrans⟩ := hstay.runs hv
    obtain ⟨hpass', hstay'⟩ := ihq hq hopens.2 hv'
    exact ⟨by simp [passes, hpass, hpass'], htrans d hstay'⟩
  | fork p q ihp ihq =>
    simp only [opens, Bool.or_eq_false_iff] at hopens
    rcases h with h | h
    · obtain ⟨hpass, hstay⟩ := ihp h hopens.1 hv
      exact ⟨by simp [passes, hpass], hstay⟩
    · obtain ⟨hpass, hstay⟩ := ihq h hopens.2 hv
      exact ⟨by simp [passes, hpass], hstay⟩
  | star _ p _ ih | again _ p _ ih =>
    exact ⟨rfl, confined_rounds h (fun hv hp => (ih hp hopens hv).2) hv⟩
  | plus _ p _ ih =>
    obtain ⟨y, hp, hs⟩ := h
    obtain ⟨hpass, hstay⟩ := ih hp hopens hv
    obtain ⟨v', hv', htrans⟩ := hstay.runs hv
    exact ⟨hpass, htrans d (confined_rounds hs (fun hv hp => (ih hp hopens hv).2) hv')⟩

/-! ### Characters that a route avoids -/

/-- Whether a route reads none of some characters. -/
def avoids (banned : List Char) : Route → Bool
  | .text cs => cs.all (!banned.contains ·)
  | .one s => banned.all (!s.has ·)
  | .seq p q | .fork p q => p.avoids banned && q.avoids banned
  | .star _ p _ | .plus _ p _ | .again _ p _ => p.avoids banned
  | _ => true

variable {banned : List Char}

theorem avoiding_rounds (h : Relation.ReflTransGen p.Leads c d)
    (ih : ∀ {c d}, p.Leads c d → ∃ u, c.Reads u d ∧ ∀ ch ∈ u, banned.contains ch = false) :
    ∃ u, c.Reads u d ∧ ∀ ch ∈ u, banned.contains ch = false := by
  induction h using Relation.ReflTransGen.head_induction_on with
  | refl => exact ⟨[], rfl, by simp⟩
  | head hp _ ihs =>
    obtain ⟨u, hu, havoids⟩ := ih hp
    obtain ⟨v, hv, havoids'⟩ := ihs
    exact ⟨u ++ v, hu.trans hv, List.forall_mem_append.2 ⟨havoids, havoids'⟩⟩

/-- A route that avoids characters reads none of them. -/
theorem Leads.reads_avoiding (h : r.Leads c d) (hr : r.avoids banned = true) :
    ∃ u, c.Reads u d ∧ ∀ ch ∈ u, banned.contains ch = false := by
  induction r generalizing c d with
  | done | record _ | meet _ => exact ⟨[], h, by simp⟩
  | look _ l => exact ⟨[], h.2, by simp⟩
  | text cs =>
    refine ⟨cs, h, ?_⟩
    intro ch hch
    have := List.all_eq_true.1 hr ch hch
    rwa [Bool.not_eq_true'] at this
  | one s =>
    obtain ⟨x, hx, hd⟩ := h
    refine ⟨[x], hd, ?_⟩
    intro ch hch
    obtain rfl := List.mem_singleton.1 hch
    by_contra hbanned
    rw [Bool.not_eq_false, List.contains_iff_mem] at hbanned
    have := List.all_eq_true.1 hr ch hbanned
    simp [hx] at this
  | seq p q ihp ihq =>
    obtain ⟨e, hp, hq⟩ := h
    simp only [avoids, Bool.and_eq_true] at hr
    obtain ⟨u, hu, havoids⟩ := ihp hp hr.1
    obtain ⟨v, hv, havoids'⟩ := ihq hq hr.2
    exact ⟨u ++ v, hu.trans hv, List.forall_mem_append.2 ⟨havoids, havoids'⟩⟩
  | fork p q ihp ihq =>
    simp only [avoids, Bool.and_eq_true] at hr
    exact h.elim (ihp · hr.1) (ihq · hr.2)
  | star _ p _ ih | again _ p _ ih => exact avoiding_rounds h (ih · hr)
  | plus _ p _ ih =>
    obtain ⟨e, hp, hs⟩ := h
    obtain ⟨u, hu, havoids⟩ := ih hp hr
    obtain ⟨v, hv, havoids'⟩ := avoiding_rounds hs (ih · hr)
    exact ⟨u ++ v, hu.trans hv, List.forall_mem_append.2 ⟨havoids, havoids'⟩⟩

/-! ### Routes that end with an opening parenthesis -/

/-- Whether a route reads no stop. -/
def isClean : Route → Bool
  | .text cs => cs.all (!stops.contains ·)
  | .one s => stops.all (!s.has ·)
  | .seq p q | .fork p q => p.isClean && q.isClean
  | .star _ p _ | .plus _ p _ | .again _ p _ => p.isClean
  | _ => true

/-- Whether a route reads an opening parenthesis last, and no stop before it. -/
def closes : Route → Bool
  | .text cs => cs == ['(']
  | .seq p (.record _) => p.closes
  | .seq p q => p.isClean && q.closes
  | _ => false

theorem isClean_eq_avoids (r : Route) : r.isClean = r.avoids stops := by
  induction r with
  | seq p q ihp ihq | fork p q ihp ihq => rw [isClean, avoids, ihp, ihq]
  | star _ p _ ih | plus _ p _ ih | again _ p _ ih => rw [isClean, avoids, ih]
  | _ => rfl

/-- A clean route reads no stop. -/
theorem Leads.reads_clean (h : r.Leads c d) (hr : r.isClean = true) :
    ∃ u, c.Reads u d ∧ ∀ ch ∈ u, stops.contains ch = false :=
  h.reads_avoiding (r.isClean_eq_avoids ▸ hr)

/-- A route that closes reads a run and its parenthesis. -/
theorem Leads.runs (h : r.Leads c d) (hr : r.closes = true) : ∃ v, Runs c v d := by
  fun_induction closes r generalizing c with
  | case1 cs =>
    obtain rfl := beq_iff_eq.1 hr
    exact ⟨[], h, by simp⟩
  | case2 p slot ih =>
    obtain ⟨e, hp, rfl⟩ := h
    exact ih hp hr
  | case3 p q hq ih =>
    obtain ⟨e, hp, hq⟩ := h
    rw [Bool.and_eq_true] at hr
    obtain ⟨u, hu, hclean⟩ := hp.reads_clean hr.1
    obtain ⟨v, hv, hclean'⟩ := ih hq hr.2
    refine ⟨u ++ v, ?_, List.forall_mem_append.2 ⟨hclean, hclean'⟩⟩
    rw [List.append_assoc]
    exact hu.trans hv
  | case4 => simp at hr

end Route

end Highlighting
