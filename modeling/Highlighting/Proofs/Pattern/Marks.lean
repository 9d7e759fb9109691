import Mathlib.Data.List.Nodup
import Highlighting.Proofs.Pattern.Search

/-!
# The marks of a pattern

The route of a pattern numbers its marks one after another, so no mark stands at two places of the
route.  Hence each mark stands for one list of routes that are left there, and the matchers of
patterns whose literals have characters are tied (`Matcher.ofRead_isTied`).
-/

namespace Highlighting

/-- Every literal of a pattern has a character. -/
def Pattern.Spelled : Pattern → Prop
  | .literal cs => cs ≠ []
  | .seq p q | .alt p q => p.Spelled ∧ q.Spelled
  | .repeated p _ _ _ | .group _ p => p.Spelled
  | .empty | .one _ | .look _ => True

namespace Route

/-- The marks of a route, each with the routes that are left to a thread there. -/
def ties : Route → List Route → List (Nat × List Route)
  | .done, _ | .text _, _ | .one _, _ | .record _, _ => []
  | .look mark l, rest => [(mark, .look mark l :: rest)]
  | .meet mark, rest => [(mark, .meet mark :: rest)]
  | .seq p q, rest => p.ties (q :: rest) ++ q.ties rest
  | .fork p q, rest => p.ties rest ++ q.ties rest
  | .star mark p greedy, rest =>
    (mark, .star mark p greedy :: rest) :: p.ties (.star mark p greedy :: rest)
  | .plus mark p greedy, rest | .again mark p greedy, rest =>
    (mark, .again mark p greedy :: rest) :: p.ties (.again mark p greedy :: rest)

/-- The marks of a route. -/
def marks : Route → List Nat
  | .done | .text _ | .one _ | .record _ => []
  | .look mark _ | .meet mark => [mark]
  | .seq p q | .fork p q => p.marks ++ q.marks
  | .star mark p _ | .plus mark p _ | .again mark p _ => mark :: p.marks

/-- Every text of a route has a character. -/
def Spelled : Route → Prop
  | .text cs => cs ≠ []
  | .seq p q | .fork p q => p.Spelled ∧ q.Spelled
  | .star _ p _ | .plus _ p _ | .again _ p _ => p.Spelled
  | .done | .one _ | .look _ _ | .record _ | .meet _ => True

variable {r p q : Route} {rest : List Route} {lo mid hi : Nat}

theorem map_fst_ties (r : Route) (rest : List Route) : (r.ties rest).map Prod.fst = r.marks := by
  induction r generalizing rest with
  | done | text _ | one _ | record _ | look _ _ | meet _ => rfl
  | seq p q ihp ihq | fork p q ihp ihq => simp [ties, marks, ihp, ihq]
  | star _ p _ ih | plus _ p _ ih | again _ p _ ih => simp [ties, marks, ih]

theorem tied_of_ties {tie : Nat → List Route} {n : Nat} (hs : r.Spelled)
    (h : ∀ x ∈ r.ties rest, x.1 < n ∧ tie x.1 = x.2) : Tied tie n r rest := by
  induction r generalizing rest with
  | done | one _ | record _ => trivial
  | text _ => exact hs
  | look _ _ | meet _ => exact h _ List.mem_cons_self
  | seq p q ihp ihq | fork p q ihp ihq =>
    exact ⟨ihp hs.1 fun x hx => h x (List.mem_append_left _ hx),
      ihq hs.2 fun x hx => h x (List.mem_append_right _ hx)⟩
  | star _ p _ ih | plus _ p _ ih | again _ p _ ih =>
    exact ⟨h _ List.mem_cons_self, ih hs fun x hx => h x (List.mem_cons_of_mem _ hx)⟩

theorem lookup_eq_of_mem {α : Type} {l : List (Nat × α)} (hl : (l.map Prod.fst).Nodup)
    {x : Nat × α} (hx : x ∈ l) : l.lookup x.1 = some x.2 := by
  induction l with
  | nil => cases hx
  | cons y l ih =>
    obtain ⟨hy, hl⟩ := List.nodup_cons.1 hl
    rcases List.mem_cons.1 hx with rfl | hx
    · exact List.lookup_cons_self
    · have hne : (x.1 == y.1) = false := by
        refine beq_eq_false_iff_ne.2 fun h => hy ?_
        exact h ▸ List.mem_map_of_mem hx
      rw [List.lookup_cons, hne]
      exact ih hl hx

/-! ### Numbering -/

/-- The marks of a route are different numbers of a stretch, and its texts have characters. -/
structure Numbered (r : Route) (lo hi : Nat) : Prop where
  le : lo ≤ hi
  nodup : r.marks.Nodup
  within : ∀ k ∈ r.marks, lo ≤ k ∧ k < hi
  spelled : r.Spelled

/-- A numbered route is tied by what its marks stand for. -/
theorem Numbered.exists_tie {n : Nat} (h : r.Numbered 0 n) : ∃ tie, Tied tie n r [] := by
  refine ⟨fun k => ((r.ties []).lookup k).getD [], tied_of_ties h.spelled fun x hx => ?_⟩
  have hkeys := map_fst_ties r []
  have hmem : x.1 ∈ r.marks := hkeys ▸ List.mem_map_of_mem hx
  refine ⟨(h.within _ hmem).2, ?_⟩
  rw [lookup_eq_of_mem (hkeys ▸ h.nodup) hx]
  rfl

theorem numbered_of_no_marks (hm : r.marks = []) (hs : r.Spelled) (n : Nat) : r.Numbered n n :=
  ⟨Nat.le_refl n, by simp [hm], by simp [hm], hs⟩

theorem numbered_done (n : Nat) : Route.done.Numbered n n :=
  numbered_of_no_marks (r := .done) rfl trivial n

theorem numbered_record (slot n : Nat) : (Route.record slot).Numbered n n :=
  numbered_of_no_marks (r := .record slot) rfl trivial n

theorem numbered_meet (n : Nat) : (Route.meet n).Numbered n (n + 1) :=
  ⟨Nat.le_succ n, List.nodup_singleton n, by simp [marks], trivial⟩

theorem nodup_append_of_within {l l' : List Nat} (hl : l.Nodup) (hl' : l'.Nodup)
    (h : ∀ k ∈ l, k < mid) (h' : ∀ k ∈ l', mid ≤ k) : (l ++ l').Nodup :=
  hl.append hl' fun k hk hk' => absurd (h k hk) (Nat.not_lt.2 (h' k hk'))

theorem Numbered.seq (hp : p.Numbered lo mid) (hq : q.Numbered mid hi) :
    (Route.seq p q).Numbered lo hi := by
  refine ⟨Nat.le_trans hp.le hq.le, ?_, fun k hk => ?_, hp.spelled, hq.spelled⟩
  · exact nodup_append_of_within hp.nodup hq.nodup (fun k hk => (hp.within k hk).2)
      fun k hk => (hq.within k hk).1
  · rcases List.mem_append.1 hk with hk | hk
    · exact ⟨(hp.within k hk).1, Nat.lt_of_lt_of_le (hp.within k hk).2 hq.le⟩
    · exact ⟨Nat.le_trans hp.le (hq.within k hk).1, (hq.within k hk).2⟩

theorem Numbered.fork (hp : p.Numbered lo mid) (hq : q.Numbered mid hi) :
    (Route.fork p q).Numbered lo hi := by
  have h := hp.seq hq
  exact ⟨h.le, h.nodup, h.within, h.spelled⟩

/-- A loop has a mark of its own in front of those of its round. -/
theorem Numbered.loop {k : Nat} (hp : p.Numbered lo hi) (hk : k < lo) (hm : r.marks = k :: p.marks)
    (hs : p.Spelled → r.Spelled) : r.Numbered k hi := by
  refine ⟨by have := hp.le; omega, ?_, ?_, hs hp.spelled⟩
  · rw [hm]
    exact List.nodup_cons.2 ⟨fun h => absurd (hp.within k h).1 (by omega), hp.nodup⟩
  · rw [hm]
    refine List.forall_mem_cons.2 ⟨⟨Nat.le_refl k, Nat.lt_of_lt_of_le hk hp.le⟩, fun j hj => ?_⟩
    have := hp.within j hj
    omega

theorem Numbered.prefer {n : Nat} (greedy : Bool) (hp : p.Numbered lo n) :
    (prefer greedy p .done).Numbered lo n := by
  cases greedy with
  | true => exact hp.fork (numbered_done n)
  | false => exact (numbered_done lo).fork hp

/-- Routes of a list, the latest first, are numbered one after another. -/
def NumberedList : List Route → Nat → Nat → Prop
  | [], lo, hi => lo = hi
  | p :: ps, lo, hi => ∃ mid, NumberedList ps lo mid ∧ p.Numbered mid hi

theorem numberedList_nil (n : Nat) : NumberedList [] n n := rfl

theorem numberedList_copies {round : Nat → Route × Nat}
    (hround : ∀ k, (round k).1.Numbered k (round k).2) (n : Nat) {ps : List Route}
    (hps : NumberedList ps lo mid) :
    NumberedList (copies round n ps mid).1 lo (copies round n ps mid).2 := by
  induction n generalizing ps mid with
  | zero => exact hps
  | succ n ih => exact ih ⟨mid, hps, hround mid⟩

theorem NumberedList.before {last : Route} {ps : List Route} (hps : NumberedList ps lo mid)
    (hlast : last.Numbered mid hi) : (before last ps).Numbered lo hi := by
  induction ps generalizing mid last with
  | nil => exact (show lo = mid from hps) ▸ hlast
  | cons p ps ih =>
    obtain ⟨m, hps, hp⟩ := hps
    exact ih hps (hp.seq hlast)

theorem NumberedList.optional (greedy : Bool) {ps : List Route} (hps : NumberedList ps lo hi) :
    (optional greedy ps).Numbered lo hi := by
  suffices h : ∀ mid q, NumberedList ps lo mid → q.Numbered mid hi →
      (ps.foldl (fun q p => Route.prefer greedy (.seq p q) .done) q).Numbered lo hi from
    h hi .done hps (numbered_done hi)
  clear hps
  induction ps with
  | nil =>
    intro mid q hps hq
    exact (show lo = mid from hps) ▸ hq
  | cons p ps ih =>
    intro mid q hps hq
    obtain ⟨m, hps, hp⟩ := hps
    exact ih m _ hps ((hp.seq hq).prefer greedy)

theorem numbered_optionalLoop (greedy : Bool) (hp : p.Numbered (lo + 2) hi) :
    (Route.seq (prefer greedy (.plus lo p greedy) .done) (.meet (lo + 1))).Numbered lo hi := by
  have hmarks : (Route.seq (prefer greedy (.plus lo p greedy) .done) (.meet (lo + 1))).marks =
      lo :: (p.marks ++ [lo + 1]) := by
    cases greedy <;> simp [prefer, marks]
  refine ⟨Nat.le_trans (Nat.le_add_right lo 2) hp.le, ?_, ?_, ?_⟩
  · have hlo : ∀ k ∈ p.marks, k ≠ lo ∧ k ≠ lo + 1 := fun k hk => by
      have := (hp.within k hk).1
      omega
    rw [hmarks, List.nodup_cons, List.nodup_append]
    refine ⟨fun h => ?_, hp.nodup, List.nodup_singleton _, fun a ha b hb => ?_⟩
    · rcases List.mem_append.1 h with h | h
      · exact (hlo lo h).1 rfl
      · simp at h
    · rw [List.mem_singleton.1 hb]
      exact (hlo a ha).2
  · have := hp.le
    simp only [hmarks, List.mem_cons, List.mem_append, List.not_mem_nil, or_false]
    rintro k (rfl | hk | rfl)
    · omega
    · have := hp.within k hk
      omega
    · omega
  · cases greedy
    · exact ⟨⟨trivial, hp.spelled⟩, trivial⟩
    · exact ⟨⟨hp.spelled, trivial⟩, trivial⟩

theorem numbered_rounds {round : Nat → Route × Nat}
    (hround : ∀ k, (round k).1.Numbered k (round k).2) (advances : Bool) (min : Nat)
    (max : Option Nat) (greedy : Bool) (mark : Nat) :
    (rounds round advances min max greedy mark).1.Numbered mark
      (rounds round advances min max greedy mark).2 := by
  unfold rounds
  split
  · split
    · exact (hround _).loop (Nat.lt_succ_self mark) rfl id
    · exact numbered_optionalLoop greedy (hround _)
  · next n =>
    have hps := numberedList_copies hround n (numberedList_nil mark)
    exact hps.before ((hround _).loop (Nat.lt_succ_self _) rfl id)
  · next m =>
    have hps := numberedList_copies hround min (numberedList_nil mark)
    dsimp only
    split
    · exact hps.before (numbered_done _)
    · have hmore := numberedList_copies hround (m - min)
        (numberedList_nil (copies round min [] mark).2)
      exact hps.before ((hmore.optional greedy).seq (numbered_meet _))

/-- The route of a pattern is numbered from a mark to the next. -/
theorem numbered_ofPattern {p : Pattern} (hp : p.Spelled) (isBranch : Bool) (mark : Nat) :
    (ofPattern p isBranch mark).1.Numbered mark (ofPattern p isBranch mark).2 := by
  induction p generalizing isBranch mark with
  | empty => exact numbered_done mark
  | one s => exact numbered_of_no_marks (r := .one s) rfl trivial mark
  | literal cs => exact numbered_of_no_marks (r := .text cs) rfl hp mark
  | look l =>
    exact ⟨Nat.le_succ mark, List.nodup_singleton mark, by simp [ofPattern, marks], trivial⟩
  | seq p q ihp ihq => exact (ihp hp.1 false mark).seq (ihq hp.2 false _)
  | alt p q ihp ihq =>
    have h := (ihp hp.1 false mark).fork (ihq hp.2 true _)
    rw [ofPattern]
    dsimp only
    split
    · exact h
    · exact h.seq (numbered_meet _)
  | repeated p min max greedy ih =>
    exact numbered_rounds (fun k => ih hp false k) p.advances min max greedy mark
  | group index p ih =>
    exact (numbered_record _ mark).seq ((ih hp false mark).seq (numbered_record _ _))

end Route

/-! ### Tied matchers -/

namespace Route

instance decidableSpelled : (r : Route) → Decidable r.Spelled
  | .text cs => inferInstanceAs (Decidable (cs ≠ []))
  | .seq p q | .fork p q =>
    have := decidableSpelled p
    have := decidableSpelled q
    inferInstanceAs (Decidable (p.Spelled ∧ q.Spelled))
  | .star _ p _ | .plus _ p _ | .again _ p _ => decidableSpelled p
  | .done | .one _ | .look _ _ | .record _ | .meet _ => .isTrue trivial

instance decidableNumbered (r : Route) (lo hi : Nat) : Decidable (r.Numbered lo hi) :=
  decidable_of_iff
    (lo ≤ hi ∧ r.marks.Nodup ∧ (∀ k ∈ r.marks, lo ≤ k ∧ k < hi) ∧ r.Spelled)
    ⟨fun ⟨hle, hnodup, hwithin, hspelled⟩ => ⟨hle, hnodup, hwithin, hspelled⟩,
      fun h => ⟨h.le, h.nodup, h.within, h.spelled⟩⟩

end Route

/-- Whether the marks of a matcher are numbered from zero. -/
def Matcher.isNumbered (m : Matcher) : Bool :=
  m.marks == 2 ^ (m.marks + 1).log2 - 1 && decide (m.route.Numbered 0 (m.marks + 1).log2)

theorem Matcher.isTied_of_isNumbered {m : Matcher} (h : m.isNumbered = true) : m.IsTied := by
  rw [isNumbered, Bool.and_eq_true, beq_iff_eq, decide_eq_true_eq] at h
  obtain ⟨tie, htie⟩ := h.2.exists_tie
  exact ⟨tie, _, h.1, htie⟩

/-- The matcher of a pattern whose literals have characters is tied. -/
theorem Matcher.ofRead_isTied {r : Pattern.Read} (hr : r.pattern.Spelled) :
    (Matcher.ofRead r).IsTied := by
  have h := Route.numbered_ofPattern hr false 0
  obtain ⟨tie, htie⟩ := h.exists_tie
  exact ⟨tie, _, congrArg (· - 1) (Nat.one_shiftLeft _), htie⟩

end Highlighting
