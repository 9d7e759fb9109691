import Highlighting.Proofs.Pattern.Search

/-!
# Routes with later marks

The route of a pattern behind a condition has the marks of the route of the pattern, each one number
later (`Route.ofPattern_add`).  Threads walk alike through both: which marks a thread has reached
matters, and not what their numbers are (`Matcher.Shifted.walk_eq`, `Matcher.Shifted.walkBlind_eq`).
-/

namespace Highlighting

namespace Route

/-- A route with its marks moved on. -/
def shift (k : Nat) : Route → Route
  | .done => .done
  | .text cs => .text cs
  | .one s => .one s
  | .look mark l => .look (mark + k) l
  | .record slot => .record slot
  | .meet mark => .meet (mark + k)
  | .seq p q => .seq (p.shift k) (q.shift k)
  | .fork p q => .fork (p.shift k) (q.shift k)
  | .star mark p greedy => .star (mark + k) (p.shift k) greedy
  | .plus mark p greedy => .plus (mark + k) (p.shift k) greedy
  | .again mark p greedy => .again (mark + k) (p.shift k) greedy

/-! ### Laying out patterns -/

variable {k : Nat} {round : Nat → Route × Nat}

theorem shift_prefer (k : Nat) (greedy : Bool) (p q : Route) :
    (prefer greedy p q).shift k = prefer greedy (p.shift k) (q.shift k) := by
  cases greedy <;> rfl

theorem shift_before (k : Nat) (last : Route) (ps : List Route) :
    (before last ps).shift k = before (last.shift k) (ps.map (shift k)) := by
  induction ps generalizing last with
  | nil => rfl
  | cons p ps ih => exact ih (.seq p last)

theorem shift_optional (k : Nat) (greedy : Bool) (ps : List Route) :
    (optional greedy ps).shift k = optional greedy (ps.map (shift k)) := by
  suffices h : ∀ q : Route,
      (ps.foldl (fun q p => prefer greedy (.seq p q) .done) q).shift k =
        (ps.map (shift k)).foldl (fun q p => prefer greedy (.seq p q) .done) (q.shift k) from h .done
  induction ps with
  | nil => exact fun _ => rfl
  | cons p ps ih =>
    intro q
    rw [List.foldl_cons, ih, shift_prefer]
    rfl

/-- What lays out a round lays it out alike from a later mark on. -/
def Shifts (k : Nat) (round : Nat → Route × Nat) : Prop :=
  ∀ mark, round (mark + k) = ((round mark).1.shift k, (round mark).2 + k)

theorem Shifts.copies_add (h : Shifts k round) (n : Nat) (ps : List Route) (mark : Nat) :
    copies round n (ps.map (shift k)) (mark + k) =
      ((copies round n ps mark).1.map (shift k), (copies round n ps mark).2 + k) := by
  induction n generalizing ps mark with
  | zero => rfl
  | succ n ih =>
    rw [copies, h mark]
    exact ih ((round mark).1 :: ps) (round mark).2

theorem Shifts.rounds (h : Shifts k round) (advances : Bool) (min : Nat) (max : Option Nat)
    (greedy : Bool) : Shifts k (rounds round advances min max greedy) := by
  intro mark
  have hnext (n j : Nat) : n + k + j = n + j + k := Nat.add_right_comm n k j
  have hcopies (n mark : Nat) := h.copies_add n [] mark
  simp only [List.map_nil] at hcopies
  match min, max with
  | 0, none =>
    cases advances with
    | true => simp [Route.rounds, hnext, h (mark + 1), shift]
    | false => simp [Route.rounds, hnext, h (mark + 2), shift, shift_prefer]
  | n + 1, none =>
    have hlast := h ((copies round n [] mark).2 + 1)
    simp [Route.rounds, hcopies, hnext, hlast, shift_before, shift]
  | n, some m =>
    by_cases hm : m ≤ n
    · simp [Route.rounds, hcopies, hm, shift_before, shift]
    · simp [Route.rounds, hcopies, hnext, hm, shift_before, shift_optional, shift]

/-- A pattern is laid out alike from a later mark on. -/
theorem ofPattern_add (p : Pattern) (isBranch : Bool) (k mark : Nat) :
    ofPattern p isBranch (mark + k) =
      ((ofPattern p isBranch mark).1.shift k, (ofPattern p isBranch mark).2 + k) := by
  induction p generalizing isBranch mark with
  | empty | one _ | literal _ => rfl
  | look l => rw [ofPattern, ofPattern, Nat.add_right_comm]; rfl
  | seq p q ihp ihq =>
    rw [ofPattern, ihp]
    dsimp only
    rw [ihq]
    rfl
  | alt p q ihp ihq =>
    rw [ofPattern, ihp]
    dsimp only
    rw [ihq]
    cases isBranch with
    | true => rfl
    | false => simp [ofPattern, shift, Nat.add_right_comm]
  | repeated p min max greedy ih =>
    exact Shifts.rounds (fun mark => ih false mark) p.advances min max greedy mark
  | group index p ih =>
    rw [ofPattern, ih]
    rfl

end Route

/-! ### Walking -/

/-- A thread with the marks of its routes moved on. -/
def Thread.shift (k : Nat) (t : Thread) : Thread := ⟨t.rest.map (Route.shift k), t.caps⟩

/-- A front of threads with later marks: it has reached the same marks as another. -/
structure Front.Shifted (k : Nat) (f f' : Front) : Prop where
  unmet : ∀ j, f'.unmet.testBit (j + k) = f.unmet.testBit j
  live : f'.live = f.live.map (Thread.shift k)
  hit : f'.hit = f.hit

namespace Front.Shifted

variable {k mark : Nat} {f f' : Front} {rest : List Route} {caps : Captures}

theorem reach (h : f.Shifted k f') (hmark : f.unmet.testBit mark = true) :
    (f.reach mark).Shifted k (f'.reach (mark + k)) := by
  refine ⟨fun j => ?_, h.live, h.hit⟩
  have hmark' : f'.unmet.testBit (mark + k) = true := (h.unmet mark).trans hmark
  rw [Front.reach, Front.reach, Nat.one_shiftLeft, Nat.one_shiftLeft, testBit_sub_two_pow hmark',
    testBit_sub_two_pow hmark, h.unmet]
  simp

theorem keepIf (h : f.Shifted k f') (goesOn : Bool) (rest : List Route) (caps : Captures) :
    (f.keepIf goesOn rest caps).Shifted k (f'.keepIf goesOn (rest.map (Route.shift k)) caps) := by
  cases goesOn with
  | false => exact h
  | true => exact ⟨h.unmet, congrArg (List.cons _) h.live, h.hit⟩

theorem keep (h : f.Shifted k f') (rest : List Route) (caps : Captures) :
    (f.keep rest caps).Shifted k (f'.keep (rest.map (Route.shift k)) caps) :=
  h.keepIf true rest caps

theorem isEmpty_live (h : f.Shifted k f') : f'.live.isEmpty = f.live.isEmpty := by
  rw [h.live, List.isEmpty_map]

theorem reverse_live (h : f.Shifted k f') :
    f'.live.reverse = f.live.reverse.map (Thread.shift k) := by
  rw [h.live, List.map_reverse]

/-- Where a thread may go on only from a mark that is not reached. -/
theorem ite {g g' : Front} (h : f.Shifted k f')
    (hgo : f.unmet.testBit mark = true → g.Shifted k g') :
    (if f.unmet.testBit mark then g else f).Shifted k
      (if f'.unmet.testBit (mark + k) then g' else f') := by
  rw [h.unmet mark]
  split
  · next hmark => exact hgo hmark
  · exact h

end Front.Shifted

section Visit

variable {k : Nat} {sight : Bool} {c : Cursor} {r : Route} {rest : List Route} {caps : Captures}
  {f f' : Front} {go go' : Captures → Front → Front}

/-- Threads are moved on alike from the end of a route. -/
def GoShifts (k : Nat) (go go' : Captures → Front → Front) : Prop :=
  ∀ caps f f', f.Shifted k f' → (go caps f).Shifted k (go' caps f')

theorem goShifts_id : GoShifts k (fun _ f => f) fun _ f => f := fun _ _ _ hf => hf

theorem visit_shift (rest : List Route) (caps : Captures) (hgo : GoShifts k go go')
    (hf : f.Shifted k f') :
    (visit sight c r rest go caps f).Shifted k
      (visit sight c (r.shift k) (rest.map (Route.shift k)) go' caps f') := by
  induction r generalizing rest go go' caps f f' with
  | done =>
    rw [Route.shift, visit, visit, hf.hit]
    split
    · exact hf
    · exact hgo caps f f' hf
  | text cs =>
    rw [Route.shift]
    unfold visit
    rw [hf.hit]
    split
    · exact hf
    dsimp only
    split
    · split
      · exact hf.keepIf _ rest caps
      · next x xs ch _ _ => exact hf.keepIf _ (.text xs :: rest) caps
      · exact hf
    · exact hf.keep (.text cs :: rest) caps
  | one s =>
    rw [Route.shift, visit, visit, hf.hit]
    split
    · exact hf
    split
    · split
      · exact hf.keepIf _ rest caps
      · exact hf
    · exact hf.keep (.one s :: rest) caps
  | look mark l =>
    rw [Route.shift, visit, visit, hf.hit]
    split
    · exact hf
    refine hf.ite fun hmark => ?_
    split
    · exact (hf.reach hmark).keep (.look mark l :: rest) caps
    · split
      · exact hgo caps _ _ (hf.reach hmark)
      · exact hf.reach hmark
  | record slot =>
    rw [Route.shift, visit, visit, hf.hit]
    split
    · exact hf
    · exact hgo _ f f' hf
  | meet mark =>
    rw [Route.shift, visit, visit, hf.hit]
    split
    · exact hf
    exact hf.ite fun hmark => hgo caps _ _ (hf.reach hmark)
  | seq p q ihp ihq =>
    rw [Route.shift, visit, visit, hf.hit]
    split
    · exact hf
    · exact ihp (q :: rest) caps (fun caps f f' hf => ihq rest caps hgo hf) hf
  | fork p q ihp ihq =>
    rw [Route.shift, visit, visit, hf.hit]
    split
    · exact hf
    · exact ihq rest caps hgo (ihp rest caps hgo hf)
  | star mark p greedy ih =>
    rw [Route.shift, visit, visit, hf.hit]
    split
    · exact hf
    refine hf.ite fun hmark => ?_
    have hmore {f f' : Front} (hf : f.Shifted k f') :=
      ih (.star mark p greedy :: rest) caps goShifts_id hf
    have hreach := hf.reach hmark
    cases greedy with
    | true => exact hgo caps _ _ (hmore hreach)
    | false => exact hmore (hgo caps _ _ hreach)
  | plus mark p greedy ih =>
    rw [Route.shift, visit, visit, hf.hit]
    split
    · exact hf
    exact hf.ite fun hmark => ih (.again mark p greedy :: rest) caps hgo (hf.reach hmark)
  | again mark p greedy ih =>
    rw [Route.shift, visit, visit, hf.hit]
    split
    · exact hf
    have hmore {f f' : Front} (hf : f.Shifted k f') :=
      @Front.Shifted.ite k mark _ _ _ _ hf fun hmark =>
        ih (.again mark p greedy :: rest) caps hgo (hf.reach hmark)
    cases greedy with
    | true => exact hgo caps _ _ (hmore hf)
    | false => exact hmore (hgo caps _ _ hf)

theorem follow_shift (rs : List Route) (caps : Captures) (hf : f.Shifted k f') :
    (follow sight c rs caps f).Shifted k (follow sight c (rs.map (Route.shift k)) caps f') := by
  induction rs generalizing caps f f' with
  | nil =>
    rw [List.map_nil, follow, follow, hf.hit]
    split
    · exact hf
    split
    · exact ⟨hf.unmet, hf.live, rfl⟩
    · exact hf.keep [] caps
  | cons r rest ih => exact visit_shift rest caps (fun caps f f' hf => ih caps hf) hf

theorem settle_shift (ts : List Thread) (hf : f.Shifted k f') :
    (settle sight c ts f).Shifted k (settle sight c (ts.map (Thread.shift k)) f') := by
  induction ts generalizing f f' with
  | nil => exact hf
  | cons t ts ih => exact ih (follow_shift t.rest t.caps hf)

end Visit

namespace Matcher

variable {k : Nat} {m m' : Matcher} {ts ts' : List Thread} {c : Cursor} {ahead : List Char}

/-- The marks of a matcher are those of another, moved on; there may be more before them. -/
def Shifted (k : Nat) (m m' : Matcher) : Prop := ∀ j, m'.marks.testBit (j + k) = m.marks.testBit j

/-- Threads are settled alike. -/
theorem Shifted.settled (h : m.Shifted k m') (sight : Bool) (c : Cursor) (ts : List Thread) :
    (settle sight c ts (.start m.marks)).Shifted k
      (settle sight c (ts.map (Thread.shift k)) (.start m'.marks)) :=
  settle_shift ts ⟨h, rfl, rfl⟩

/-- Threads whose fronts are alike at a place are walked alike from there. -/
theorem Shifted.walk_eq (h : m.Shifted k m') {limit : Option Nat}
    {best : Option (Captures × Cursor)}
    (hf : (settle true c ts (.start m.marks)).Shifted k (settle true c ts' (.start m'.marks))) :
    m'.walk limit ahead c ts' best = m.walk limit ahead c ts best := by
  induction ahead generalizing c ts ts' best with
  | nil => rw [walk, walk, hf.hit]
  | cons ch rest ih =>
    rw [walk, walk, hf.hit, hf.isEmpty_live, hf.reverse_live]
    split
    · rfl
    · exact ih (h.settled true _ _)

/-- The same without sight of the character ahead. -/
theorem Shifted.walkBlind_eq (h : m.Shifted k m') (hwords : m'.asksForWords = m.asksForWords)
    {best : Option Cursor}
    (hf : (settle false c ts (.start m.marks)).Shifted k (settle false c ts' (.start m'.marks))) :
    m'.walkBlind ahead c ts' best = m.walkBlind ahead c ts best := by
  induction ahead generalizing c ts ts' best with
  | nil =>
    have hsight := h.settled true c (settle false c ts (.start m.marks)).live.reverse
    rw [walkBlind, walkBlind, hwords, hf.reverse_live, List.isEmpty_map]
    dsimp only
    rw [hsight.hit]
  | cons ch rest ih =>
    have hsight := h.settled true c (settle false c ts (.start m.marks)).live.reverse
    rw [walkBlind, walkBlind, hwords, hf.reverse_live, List.isEmpty_map]
    dsimp only
    rw [hsight.hit, hsight.reverse_live]
    split
    · rfl
    split
    · rfl
    · exact ih (h.settled false _ _)

theorem Shifted.walk_map (h : m.Shifted k m') (limit : Option Nat) (ts : List Thread)
    (best : Option (Captures × Cursor)) :
    m'.walk limit ahead c (ts.map (Thread.shift k)) best = m.walk limit ahead c ts best :=
  h.walk_eq (h.settled true c ts)

theorem Shifted.walkBlind_map (h : m.Shifted k m') (hwords : m'.asksForWords = m.asksForWords)
    (ts : List Thread) (best : Option Cursor) :
    m'.walkBlind ahead c (ts.map (Thread.shift k)) best = m.walkBlind ahead c ts best :=
  h.walkBlind_eq hwords (h.settled false c ts)

end Matcher

end Highlighting
