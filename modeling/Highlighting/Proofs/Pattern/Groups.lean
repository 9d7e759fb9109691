import Highlighting.Proofs.Pattern.Route

/-!
# Routes made of groups

Some patterns are groups that follow one another, with nothing but conditions beside them
(`Route.groups?`).  A walk through the route of such a pattern records for each group where it
begins and ends, and each group begins where the one before it ends (`Route.Walks.spans`).
-/

namespace Highlighting

namespace Captures

open Route

variable {i j : Nat}

theorem slot?_cons (slot n k : Nat) (caps : Captures) :
    slot? ((slot, n) :: caps) k = if k = slot then some n else caps.slot? k := by
  rw [slot?, List.lookup_cons]
  split
  · next h => rw [if_pos (beq_iff_eq.1 h)]
  · next h => rw [if_neg (beq_eq_false_iff_ne.1 h), slot?]

theorem get?_record_self (i first last : Nat) (caps : Captures) :
    get? ((stopSlot i, last) :: (startSlot i, first) :: caps) i = some (first, last) := by
  have hne : startSlot i ≠ stopSlot i := by
    simp only [startSlot, stopSlot]
    omega
  rw [get?, slot?_cons, slot?_cons, slot?_cons, if_neg hne, if_pos rfl, if_pos rfl]

theorem get?_record_of_ne (h : i ≠ j) (first last : Nat) (caps : Captures) :
    get? ((stopSlot j, last) :: (startSlot j, first) :: caps) i = caps.get? i := by
  have hstart : startSlot i ≠ stopSlot j ∧ startSlot i ≠ startSlot j := by
    simp only [startSlot, stopSlot]
    omega
  have hstop : stopSlot i ≠ stopSlot j ∧ stopSlot i ≠ startSlot j := by
    simp only [startSlot, stopSlot]
    omega
  rw [get?, slot?_cons, slot?_cons, slot?_cons, slot?_cons, if_neg hstart.1,
    if_neg hstart.2, if_neg hstop.1, if_neg hstop.2, get?]

end Captures

namespace Route

/-- Whether a route records nothing. -/
def isSilent : Route → Bool
  | .record _ => false
  | .seq p q | .fork p q => p.isSilent && q.isSilent
  | .star _ p _ | .plus _ p _ | .again _ p _ => p.isSilent
  | _ => true

/-- The groups that follow one another in a route that has only conditions beside them, by their
numbers. -/
def groups? : Route → Option (List (Nat × Route))
  | .done | .look _ _ | .meet _ => some []
  | .seq (.record i) (.seq q (.record j)) =>
    if q.isSilent && i == startSlot (i / 2) && j == stopSlot (i / 2) then some [(i / 2, q)]
    else none
  | .seq p q =>
    match p.groups?, q.groups? with
    | some gs, some gs' => some (gs ++ gs')
    | _, _ => none
  | _ => none

/-- Groups are walked one after another, and each is recorded. -/
def Follows : List (Nat × Route) → Cursor × Captures → Cursor × Captures → Prop
  | [], x, y => x = y
  | (i, q) :: gs, x, y => ∃ e, q.Leads x.1 e ∧
      Follows gs (e, (stopSlot i, e.offset) :: (startSlot i, x.1.offset) :: x.2) y

/-- Routes lead one after another from one place to another, over the given ranges. -/
def Spans : List Route → Cursor → Cursor → List (Option (Nat × Nat)) → Prop
  | [], c, d, ranges => c = d ∧ ranges = []
  | q :: qs, c, d, ranges => ∃ e rest, q.Leads c e ∧ ranges = some (c.offset, e.offset) :: rest ∧
      Spans qs e d rest

variable {r p : Route} {gs gs' : List (Nat × Route)} {x y : Cursor × Captures} {i : Nat}

theorem silent_rounds (h : Relation.ReflTransGen p.Walks x y)
    (ih : ∀ {x y}, p.Walks x y → y.2 = x.2) : y.2 = x.2 := by
  induction h with
  | refl => rfl
  | tail _ hp hs => exact (ih hp).trans hs

/-- On a route that records nothing nothing is recorded. -/
theorem Walks.caps_eq (h : r.Walks x y) (hr : r.isSilent = true) : y.2 = x.2 := by
  induction r generalizing x y with
  | done | meet _ => exact congrArg Prod.snd (Eq.symm h)
  | text cs | one s => exact h.2.symm
  | look _ l => exact congrArg Prod.snd h.2.symm
  | record slot => cases hr
  | seq p q ihp ihq =>
    obtain ⟨z, hp, hq⟩ := h
    obtain ⟨hr, hr'⟩ := Bool.and_eq_true_iff.1 hr
    exact (ihq hq hr').trans (ihp hp hr)
  | fork p q ihp ihq =>
    obtain ⟨hr, hr'⟩ := Bool.and_eq_true_iff.1 hr
    exact h.elim (ihp · hr) (ihq · hr')
  | star _ p _ ih | again _ p _ ih => exact silent_rounds h (ih · hr)
  | plus _ p _ ih =>
    obtain ⟨z, hp, hs⟩ := h
    exact (silent_rounds hs (ih · hr)).trans (ih hp hr)

theorem Follows.append {z : Cursor × Captures} (h : Follows gs x z) (h' : Follows gs' z y) :
    Follows (gs ++ gs') x y := by
  induction gs generalizing x with
  | nil =>
    obtain rfl : x = z := h
    exact h'
  | cons g gs ih =>
    obtain ⟨e, hq, h⟩ := h
    exact ⟨e, hq, ih h⟩

/-- A walk follows the groups of its route. -/
theorem Walks.follows (h : r.Walks x y) (hr : r.groups? = some gs) : Follows gs x y := by
  fun_induction groups? r generalizing gs x y with
  | case1 | case3 =>
    obtain rfl := Option.some.inj hr
    exact h
  | case2 =>
    obtain rfl := Option.some.inj hr
    exact h.2
  | case4 i q j hslots =>
    obtain rfl := Option.some.inj hr
    simp only [Bool.and_eq_true, beq_iff_eq] at hslots
    obtain ⟨⟨hsilent, hi⟩, hj⟩ := hslots
    obtain ⟨z, hstart, z', hq, hstop⟩ := h
    obtain rfl : (x.1, (i, x.1.offset) :: x.2) = z := hstart
    obtain rfl : (z'.1, (j, z'.1.offset) :: z'.2) = y := hstop
    refine ⟨z'.1, hq.leads, ?_⟩
    rw [hq.caps_eq hsilent, ← hi, ← hj]
    rfl
  | case5 => cases hr
  | case6 p q _ gs₁ gs₂ hq hp ihp ihq =>
    obtain rfl := Option.some.inj hr
    obtain ⟨z, hwalk, hwalk'⟩ := h
    exact (ihp hwalk hp).append (ihq hwalk' hq)
  | case7 | case8 => cases hr

/-! ### What is recorded -/

theorem Follows.get?_eq (h : Follows gs x y) (hi : i ∉ gs.map Prod.fst) :
    y.2.get? i = x.2.get? i := by
  induction gs generalizing x with
  | nil =>
    obtain rfl : x = y := h
    rfl
  | cons g gs ih =>
    obtain ⟨e, -, h⟩ := h
    rw [List.map_cons, List.mem_cons, not_or] at hi
    exact (ih h hi.2).trans (Captures.get?_record_of_ne hi.1 _ _ _)

/-- Groups with numbers of their own are recorded one after another. -/
theorem Follows.spans (h : Follows gs x y) (hgs : (gs.map Prod.fst).Nodup) :
    Spans (gs.map Prod.snd) x.1 y.1 ((gs.map Prod.fst).map y.2.get?) := by
  induction gs generalizing x with
  | nil =>
    obtain rfl : x = y := h
    exact ⟨rfl, rfl⟩
  | cons g gs ih =>
    obtain ⟨i, q⟩ := g
    obtain ⟨e, hq, h⟩ := h
    obtain ⟨hi, hgs⟩ := List.nodup_cons.1 hgs
    refine ⟨e, _, hq, ?_, ih h hgs⟩
    rw [List.map_cons, List.map_cons, h.get?_eq hi, Captures.get?_record_self]

/-- A walk through a route of groups leads over them one after another, and records their
ranges. -/
theorem Walks.spans (h : r.Walks x y) (hr : r.groups? = some gs)
    (hgs : (gs.map Prod.fst).Nodup) :
    Spans (gs.map Prod.snd) x.1 y.1 ((gs.map Prod.fst).map y.2.get?) :=
  (h.follows hr).spans hgs

end Route

end Highlighting
