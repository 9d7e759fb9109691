import Mathlib.Data.Set.Insert
import Highlighting.Proofs.Pattern.Search

/-!
# The preferred way through a route

`Route.Tries` says what comes of trying routes one way after another: at a fork the first way is
tried before the second, a greedy loop tries another round before it goes on and a lazy one the
other way round, and the first way that leads to the end decides.  A way that comes to a mark for the
second time at one place is given up, so that a loop does not repeat a round that reads nothing.

A walk moves all threads side by side, and gives up a thread at a mark that any thread has reached.
It finds what the trying finds (`Matcher.matchFrom?_eq_iff`): as long as no thread has won, every
thread that has reached a mark has lost, so a thread that is given up there would have lost too
(`Route.Tries.unblock`).
-/

namespace Highlighting

namespace Route

/-- The mark that a route has at its beginning. -/
def mark? : Route → Option Nat
  | .look mark _ | .meet mark | .star mark _ _ | .plus mark _ _ => some mark
  | _ => none

/-- The routes that are left when the rest of a text is still to be read. -/
def textThen : List Char → List Route → List Route
  | [], rest => rest
  | cs, rest => .text cs :: rest

/-- What comes of trying routes, one way after another: nothing, or what has been recorded and the
place where the first way ends that leads to the end.  `met` holds the marks that have been met at
the place since the last character was read. -/
inductive Tries : Set Nat → List Route → Cursor → Captures → Option (Captures × Cursor) → Prop where
  | ended {met c caps} : Tries met [] c caps (some (caps, c))
  | done {met rest c caps o} (h : Tries met rest c caps o) : Tries met (.done :: rest) c caps o
  | text {met x xs rest c ahead caps o} (hx : c.ahead = x :: ahead)
      (h : Tries ∅ (textThen xs rest) (c.past x ahead) caps o) :
      Tries met (.text (x :: xs) :: rest) c caps o
  | textFails {met cs rest c caps} (hx : ∀ x xs ahead, cs = x :: xs → c.ahead ≠ x :: ahead) :
      Tries met (.text cs :: rest) c caps none
  | one {met s x rest c ahead caps o} (hx : c.ahead = x :: ahead) (hs : s.has x = true)
      (h : Tries ∅ rest (c.past x ahead) caps o) : Tries met (.one s :: rest) c caps o
  | oneFails {met s rest c caps} (hx : ∀ x ahead, c.ahead = x :: ahead → s.has x = false) :
      Tries met (.one s :: rest) c caps none
  | look {met mark l rest c caps o} (hmark : mark ∉ met) (hl : l.holds c = true)
      (h : Tries (insert mark met) rest c caps o) : Tries met (.look mark l :: rest) c caps o
  | lookFails {met mark l rest c caps} (hl : l.holds c = false) :
      Tries met (.look mark l :: rest) c caps none
  | record {met slot rest c caps o} (h : Tries met rest c ((slot, c.offset) :: caps) o) :
      Tries met (.record slot :: rest) c caps o
  | meet {met mark rest c caps o} (hmark : mark ∉ met) (h : Tries (insert mark met) rest c caps o) :
      Tries met (.meet mark :: rest) c caps o
  | seq {met p q rest c caps o} (h : Tries met (p :: q :: rest) c caps o) :
      Tries met (.seq p q :: rest) c caps o
  | first {met p q rest c caps m} (h : Tries met (p :: rest) c caps (some m)) :
      Tries met (.fork p q :: rest) c caps (some m)
  | second {met p q rest c caps o} (hp : Tries met (p :: rest) c caps none)
      (hq : Tries met (q :: rest) c caps o) : Tries met (.fork p q :: rest) c caps o
  | star {met mark p greedy rest c caps o} (hmark : mark ∉ met)
      (h : Tries (insert mark met)
        (prefer greedy (.seq p (.star mark p greedy)) .done :: rest) c caps o) :
      Tries met (.star mark p greedy :: rest) c caps o
  | plus {met mark p greedy rest c caps o} (hmark : mark ∉ met)
      (h : Tries (insert mark met) (p :: .again mark p greedy :: rest) c caps o) :
      Tries met (.plus mark p greedy :: rest) c caps o
  | again {met mark p greedy rest c caps o}
      (h : Tries met (prefer greedy (.plus mark p greedy) .done :: rest) c caps o) :
      Tries met (.again mark p greedy :: rest) c caps o
  | blocked {met r mark rest c caps} (hr : r.mark? = some mark) (hmark : mark ∈ met) :
      Tries met (r :: rest) c caps none

namespace Tries

variable {met met' : Set Nat} {rs rest : List Route} {r p q : Route} {c d : Cursor}
  {caps caps' : Captures} {o o' : Option (Captures × Cursor)} {mark : Nat}

/-- Only one thing comes of trying. -/
theorem unique (h : Tries met rs c caps o) (h' : Tries met rs c caps o') : o = o' := by
  induction h generalizing o' with
  | ended => cases h'; rfl
  | done _ ih =>
    cases h' with
    | done h' => exact ih h'
    | blocked hr => cases hr
  | record _ ih =>
    cases h' with
    | record h' => exact ih h'
    | blocked hr => cases hr
  | seq _ ih =>
    cases h' with
    | seq h' => exact ih h'
    | blocked hr => cases hr
  | again _ ih =>
    cases h' with
    | again h' => exact ih h'
    | blocked hr => cases hr
  | text hx _ ih =>
    cases h' with
    | text hx' h' =>
      obtain ⟨-, rfl⟩ := List.cons.inj (hx.symm.trans hx')
      exact ih h'
    | textFails hx' => exact absurd hx (hx' _ _ _ rfl)
    | blocked hr => cases hr
  | textFails hx =>
    cases h' with
    | text hx' => exact absurd hx' (hx _ _ _ rfl)
    | textFails => rfl
    | blocked => rfl
  | one hx hs _ ih =>
    cases h' with
    | one hx' _ h' =>
      obtain ⟨rfl, rfl⟩ := List.cons.inj (hx.symm.trans hx')
      exact ih h'
    | oneFails hx' => rw [hx' _ _ hx] at hs; cases hs
    | blocked hr => cases hr
  | oneFails hx =>
    cases h' with
    | one hx' hs => rw [hx _ _ hx'] at hs; cases hs
    | oneFails => rfl
    | blocked => rfl
  | look hmark hl _ ih =>
    cases h' with
    | look _ _ h' => exact ih h'
    | lookFails hl' => rw [hl] at hl'; cases hl'
    | blocked hr hmark' => exact absurd (Option.some.inj hr ▸ hmark') hmark
  | lookFails hl =>
    cases h' with
    | look _ hl' => rw [hl] at hl'; cases hl'
    | lookFails => rfl
    | blocked => rfl
  | meet hmark _ ih =>
    cases h' with
    | meet _ h' => exact ih h'
    | blocked hr hmark' => exact absurd (Option.some.inj hr ▸ hmark') hmark
  | first _ ih =>
    cases h' with
    | first h' => exact ih h'
    | second hp _ => cases ih hp
    | blocked hr => cases hr
  | second _ _ ihp ihq =>
    cases h' with
    | first h' => cases ihp h'
    | second _ hq => exact ihq hq
    | blocked hr => cases hr
  | star hmark _ ih =>
    cases h' with
    | star _ h' => exact ih h'
    | blocked hr hmark' => exact absurd (Option.some.inj hr ▸ hmark') hmark
  | plus hmark _ ih =>
    cases h' with
    | plus _ h' => exact ih h'
    | blocked hr hmark' => exact absurd (Option.some.inj hr ▸ hmark') hmark
  | blocked hr hmark =>
    cases h' with
    | look hmark' | meet hmark' | star hmark' | plus hmark' =>
      exact absurd (Option.some.inj hr ▸ hmark) hmark'
    | lookFails | textFails | oneFails | blocked => rfl
    | done | text | one | record | seq | first | second | again => cases hr

/-! ### Something comes of trying -/

theorem exists_fork (hp : ∃ o, Tries met (p :: rest) c caps o)
    (hq : ∃ o, Tries met (q :: rest) c caps o) : ∃ o, Tries met (.fork p q :: rest) c caps o := by
  obtain ⟨_ | m, hp⟩ := hp
  · obtain ⟨o, hq⟩ := hq
    exact ⟨o, .second hp hq⟩
  · exact ⟨some m, .first hp⟩

theorem exists_prefer (greedy : Bool) (hp : ∃ o, Tries met (p :: rest) c caps o)
    (hq : ∃ o, Tries met (q :: rest) c caps o) :
    ∃ o, Tries met (prefer greedy p q :: rest) c caps o := by
  cases greedy with
  | true => exact exists_fork hp hq
  | false => exact exists_fork hq hp

/-- Behind a round of a loop whose mark is met, the loop is left. -/
theorem again_of_rest (hmark : mark ∈ met) {greedy : Bool} (h : Tries met rest c caps o) :
    Tries met (.again mark p greedy :: rest) c caps o := by
  have hmore : Tries met (.plus mark p greedy :: rest) c caps none := .blocked rfl hmark
  refine .again ?_
  cases greedy with
  | true => exact .second hmore (.done h)
  | false =>
    cases o with
    | none => exact .second (.done h) hmore
    | some m => exact .first (.done h)

/-- Something comes of a route wherever something comes of what is left behind it. -/
def Passes (c : Cursor) (r : Route) : Prop :=
  ∀ met rest caps, (∀ met', met ⊆ met' → ∀ caps, ∃ o, Tries met' rest c caps o) →
    ∃ o, Tries met (r :: rest) c caps o

theorem Passes.plus (hp : Passes c p) (mark : Nat) (greedy : Bool) :
    Passes c (.plus mark p greedy) := by
  intro met rest caps hrest
  by_cases hmark : mark ∈ met
  · exact ⟨none, .blocked rfl hmark⟩
  obtain ⟨o, h⟩ := hp (insert mark met) (.again mark p greedy :: rest) caps fun met' hmet caps => by
    obtain ⟨o, h⟩ := hrest met' ((Set.subset_insert mark met).trans hmet) caps
    exact ⟨o, again_of_rest (hmet (Set.mem_insert mark met)) h⟩
  exact ⟨o, .plus hmark h⟩

/-- Something comes of a route if something does of any routes one character later. -/
theorem passes
    (hread : ∀ ch ahead rs caps, c.ahead = ch :: ahead → ∃ o, Tries ∅ rs (c.past ch ahead) caps o)
    (r : Route) : Passes c r := by
  induction r with
  | done =>
    intro met rest caps hrest
    obtain ⟨o, h⟩ := hrest met subset_rfl caps
    exact ⟨o, .done h⟩
  | text cs =>
    intro met rest caps hrest
    by_cases hx : ∃ x xs ahead, cs = x :: xs ∧ c.ahead = x :: ahead
    · obtain ⟨x, xs, ahead, rfl, hx⟩ := hx
      obtain ⟨o, h⟩ := hread x ahead (textThen xs rest) caps hx
      exact ⟨o, .text hx h⟩
    · exact ⟨none, .textFails fun x xs ahead hcs hahead => hx ⟨x, xs, ahead, hcs, hahead⟩⟩
  | one s =>
    intro met rest caps hrest
    by_cases hx : ∃ x ahead, c.ahead = x :: ahead ∧ s.has x = true
    · obtain ⟨x, ahead, hx, hs⟩ := hx
      obtain ⟨o, h⟩ := hread x ahead rest caps hx
      exact ⟨o, .one hx hs h⟩
    · refine ⟨none, .oneFails fun x ahead hahead => ?_⟩
      exact Bool.eq_false_iff.2 fun hs => hx ⟨x, ahead, hahead, hs⟩
  | look mark l =>
    intro met rest caps hrest
    by_cases hmark : mark ∈ met
    · exact ⟨none, .blocked rfl hmark⟩
    cases hl : l.holds c with
    | false => exact ⟨none, .lookFails hl⟩
    | true =>
      obtain ⟨o, h⟩ := hrest _ (Set.subset_insert mark met) caps
      exact ⟨o, .look hmark hl h⟩
  | record slot =>
    intro met rest caps hrest
    obtain ⟨o, h⟩ := hrest met subset_rfl ((slot, c.offset) :: caps)
    exact ⟨o, .record h⟩
  | meet mark =>
    intro met rest caps hrest
    by_cases hmark : mark ∈ met
    · exact ⟨none, .blocked rfl hmark⟩
    · obtain ⟨o, h⟩ := hrest _ (Set.subset_insert mark met) caps
      exact ⟨o, .meet hmark h⟩
  | seq p q ihp ihq =>
    intro met rest caps hrest
    obtain ⟨o, h⟩ := ihp met (q :: rest) caps fun met' hmet caps =>
      ihq met' rest caps fun met'' hmet' => hrest met'' (hmet.trans hmet')
    exact ⟨o, .seq h⟩
  | fork p q ihp ihq =>
    intro met rest caps hrest
    exact exists_fork (ihp met rest caps hrest) (ihq met rest caps hrest)
  | star mark p greedy ih =>
    intro met rest caps hrest
    by_cases hmark : mark ∈ met
    · exact ⟨none, .blocked rfl hmark⟩
    -- a round that reads nothing comes back to the mark of the loop
    obtain ⟨o, hmore⟩ := ih (insert mark met) (.star mark p greedy :: rest) caps
      fun met' hmet caps => ⟨none, .blocked rfl (hmet (Set.mem_insert mark met))⟩
    obtain ⟨o', hstop⟩ := hrest _ (Set.subset_insert mark met) caps
    obtain ⟨o, h⟩ := exists_prefer greedy ⟨o, .seq hmore⟩ ⟨o', .done hstop⟩
    exact ⟨o, .star hmark h⟩
  | plus mark p greedy ih => exact ih.plus mark greedy
  | again mark p greedy ih =>
    intro met rest caps hrest
    obtain ⟨o, hstop⟩ := hrest met subset_rfl caps
    obtain ⟨o, h⟩ := exists_prefer greedy (ih.plus mark greedy met rest caps hrest)
      ⟨o, .done hstop⟩
    exact ⟨o, .again h⟩

theorem exists_of_read
    (hread : ∀ ch ahead rs caps, c.ahead = ch :: ahead → ∃ o, Tries ∅ rs (c.past ch ahead) caps o)
    (met : Set Nat) (rs : List Route) (caps : Captures) : ∃ o, Tries met rs c caps o := by
  induction rs generalizing met caps with
  | nil => exact ⟨some (caps, c), .ended⟩
  | cons r rest ih => exact passes hread r met rest caps fun met' _ caps => ih met' caps

/-- Something comes of trying any routes anywhere. -/
theorem exists_tries (met : Set Nat) (rs : List Route) (c : Cursor) (caps : Captures) :
    ∃ o, Tries met rs c caps o := by
  suffices h : ∀ ahead c, c.ahead = ahead → ∀ met rs caps, ∃ o, Tries met rs c caps o from
    h _ c rfl met rs caps
  intro ahead
  induction ahead with
  | nil =>
    intro c hahead
    exact exists_of_read fun ch rest rs caps h => by rw [hahead] at h; cases h
  | cons x ahead ih =>
    intro c hahead
    refine exists_of_read fun ch rest rs caps h => ?_
    obtain ⟨-, rfl⟩ := List.cons.inj (hahead.symm.trans h)
    exact ih _ rfl ∅ rs caps

/-- Whether something leads to the end does not depend on what has been recorded. -/
theorem exists_isSome_eq (h : Tries met rs c caps o) (caps' : Captures) :
    ∃ o', Tries met rs c caps' o' ∧ o'.isSome = o.isSome := by
  induction h generalizing caps' with
  | ended => exact ⟨_, .ended, rfl⟩
  | done _ ih =>
    obtain ⟨o', h, ho⟩ := ih caps'
    exact ⟨o', .done h, ho⟩
  | text hx _ ih =>
    obtain ⟨o', h, ho⟩ := ih caps'
    exact ⟨o', .text hx h, ho⟩
  | textFails hx => exact ⟨none, .textFails hx, rfl⟩
  | one hx hs _ ih =>
    obtain ⟨o', h, ho⟩ := ih caps'
    exact ⟨o', .one hx hs h, ho⟩
  | oneFails hx => exact ⟨none, .oneFails hx, rfl⟩
  | look hmark hl _ ih =>
    obtain ⟨o', h, ho⟩ := ih caps'
    exact ⟨o', .look hmark hl h, ho⟩
  | lookFails hl => exact ⟨none, .lookFails hl, rfl⟩
  | @record _ slot _ c _ _ _ ih =>
    obtain ⟨o', h, ho⟩ := ih ((slot, c.offset) :: caps')
    exact ⟨o', .record h, ho⟩
  | meet hmark _ ih =>
    obtain ⟨o', h, ho⟩ := ih caps'
    exact ⟨o', .meet hmark h, ho⟩
  | seq _ ih =>
    obtain ⟨o', h, ho⟩ := ih caps'
    exact ⟨o', .seq h, ho⟩
  | first _ ih =>
    obtain ⟨o', h, ho⟩ := ih caps'
    obtain ⟨m, rfl⟩ := Option.isSome_iff_exists.1 ho
    exact ⟨some m, .first h, rfl⟩
  | second _ _ ihp ihq =>
    obtain ⟨o₁, hp, ho₁⟩ := ihp caps'
    obtain rfl : o₁ = none := by simpa using ho₁
    obtain ⟨o', hq, ho⟩ := ihq caps'
    exact ⟨o', .second hp hq, ho⟩
  | star hmark _ ih =>
    obtain ⟨o', h, ho⟩ := ih caps'
    exact ⟨o', .star hmark h, ho⟩
  | plus hmark _ ih =>
    obtain ⟨o', h, ho⟩ := ih caps'
    exact ⟨o', .plus hmark h, ho⟩
  | again _ ih =>
    obtain ⟨o', h, ho⟩ := ih caps'
    exact ⟨o', .again h, ho⟩
  | blocked hr hmark => exact ⟨none, .blocked hr hmark, rfl⟩

/-- What leads nowhere with one record leads nowhere with another. -/
theorem eq_none (h : Tries met rs c caps o) (h' : Tries met rs c caps' none) : o = none := by
  obtain ⟨o', h', ho'⟩ := h'.exists_isSome_eq caps
  obtain rfl := h.unique h'
  simpa using ho'

end Tries

/-! ### Marks that lead nowhere -/

section Barren

variable {tie : Nat → List Route} {marks mark : Nat} {met met' : Set Nat} {rs rest : List Route}
  {r : Route} {c : Cursor} {caps : Captures} {o : Option (Captures × Cursor)}

/-- The marks that are met later lead nowhere, whatever else is met besides those met before. -/
def Barren (tie : Nat → List Route) (marks : Nat) (c : Cursor) (met met' : Set Nat) : Prop :=
  ∀ r rest mark, r.mark? = some mark → TiedAll tie marks (r :: rest) → mark ∈ met' → mark ∉ met →
    ∀ more, met ⊆ more → ∀ caps o, Tries more (r :: rest) c caps o → o = none

theorem Barren.insert (h : Barren tie marks c met met') (mark : Nat) :
    Barren tie marks c (insert mark met) (insert mark met') := by
  intro r rest k hr htied hk' hk more hmore
  have hmet : k ∉ met := fun hmem => hk (Set.mem_insert_of_mem mark hmem)
  have hmet' : k ∈ met' := hk'.resolve_left fun hkm => hk (hkm ▸ Set.mem_insert k met)
  exact h r rest k hr htied hmet' hmet more ((Set.subset_insert mark met).trans hmore)

/-- The marks of tied routes are below a number. -/
theorem barren_of_le (h : ∀ mark ∈ met', mark ∈ met ∨ marks ≤ mark) :
    Barren tie marks c met met' := by
  intro r rest mark hr htied hmet' hmet
  have hle := (h mark hmet').resolve_left hmet
  have hlt : mark < marks := by
    cases r with
    | look | meet => exact (Option.some.inj hr) ▸ htied.1.1
    | star | plus => exact (Option.some.inj hr) ▸ htied.1.1.1
    | done | text | one | record | seq | fork | again => cases hr
  omega

theorem tiedAll_prefer {p q : Route} {greedy : Bool} (hp : Tied tie marks p rest)
    (hq : Tied tie marks q rest) (hrest : TiedAll tie marks rest) :
    TiedAll tie marks (prefer greedy p q :: rest) := by
  cases greedy with
  | true => exact ⟨⟨hp, hq⟩, hrest⟩
  | false => exact ⟨⟨hq, hp⟩, hrest⟩

/-- Giving up at marks that lead nowhere changes nothing. -/
theorem Tries.unblock (h : Tries met' rs c caps o) (hmet : met ⊆ met')
    (hbarren : Barren tie marks c met met') (htied : TiedAll tie marks rs) :
    Tries met rs c caps o := by
  induction h generalizing met with
  | ended => exact .ended
  | done _ ih => exact .done (ih hmet hbarren htied.2)
  | text hx h => exact .text hx h
  | textFails hx => exact .textFails hx
  | one hx hs h => exact .one hx hs h
  | oneFails hx => exact .oneFails hx
  | look hmark hl _ ih =>
    exact .look (fun hm => hmark (hmet hm)) hl
      (ih (Set.insert_subset_insert hmet) (hbarren.insert _) htied.2)
  | lookFails hl => exact .lookFails hl
  | record _ ih => exact .record (ih hmet hbarren htied.2)
  | meet hmark _ ih =>
    exact .meet (fun hm => hmark (hmet hm))
      (ih (Set.insert_subset_insert hmet) (hbarren.insert _) htied.2)
  | seq _ ih => exact .seq (ih hmet hbarren ⟨htied.1.1, htied.1.2, htied.2⟩)
  | first _ ih => exact .first (ih hmet hbarren ⟨htied.1.1, htied.2⟩)
  | second _ _ ihp ihq =>
    exact .second (ihp hmet hbarren ⟨htied.1.1, htied.2⟩) (ihq hmet hbarren ⟨htied.1.2, htied.2⟩)
  | star hmark _ ih =>
    refine .star (fun hm => hmark (hmet hm)) ?_
    exact ih (Set.insert_subset_insert hmet) (hbarren.insert _)
      (tiedAll_prefer ⟨htied.1.2, htied.1⟩ trivial htied.2)
  | plus hmark _ ih =>
    exact .plus (fun hm => hmark (hmet hm))
      (ih (Set.insert_subset_insert hmet) (hbarren.insert _) ⟨htied.1.2, htied⟩)
  | again _ ih => exact .again (ih hmet hbarren (tiedAll_prefer htied.1 trivial htied.2))
  | @blocked _ r mark rest c caps hr hmark =>
    by_cases hm : mark ∈ met
    · exact .blocked hr hm
    · obtain ⟨o, h⟩ := exists_tries met (r :: rest) c caps
      rwa [hbarren r rest mark hr htied hmark hm met subset_rfl caps o h] at h

end Barren

end Route

end Highlighting
