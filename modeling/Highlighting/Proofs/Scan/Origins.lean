import Highlighting.Proofs.Scan.Points

/-!
# Where tokens come from

What is found at any point of a run, in the scan of the source or in that of a group, is found in
the end (`Scanner.Visits.mem_run_of_mem`).  Conversely, each token of a run that is no plain text is
a part of a match that the run takes at one of its points (`Scanner.exists_makes_of_mem_run`).
-/

namespace Highlighting

theorem Progress.mem_push {p : Progress} {category : Category} {start stop : Nat} {t : RawToken}
    (h : t ∈ (p.push category start stop).tokens) :
    t ∈ p.tokens ∨ (t = ⟨category, start, stop⟩ ∧ start < stop) := by
  rw [push] at h
  split at h
  · next hlt => exact (Array.mem_push.1 h).imp_right fun h => ⟨h, hlt⟩
  · exact .inl h

namespace Scanner

variable {s : Scanner} {x y : Point} {source : List Char} {t : RawToken} {c : Cursor}
  {rescan : Rescan} {p : Progress}

/-- At a point a match is taken of which a token is a part. -/
def Makes (s : Scanner) (x : Point) (t : RawToken) : Prop :=
  ∃ r m part, s.taken? x = some (r, m) ∧ part ∈ r.parts x.cursor m ∧ part.start < part.stop ∧
    part.action.category? (String.ofList (textBetween x.cursor part.start part.stop)) =
      some t.category ∧
    part.start = t.start ∧ part.stop = t.stop

/-! ### What is found stays -/

theorem grows_finish (s : Scanner) (x : Point) : x.progress.Grows (s.finish x) :=
  s.obeys_grows.scanFrom (s.obeys_grows.rescanAt x.depth) _ _ trivial

/-- What the scan of a group finds is among what is found in the end of the scan around it. -/
theorem Point.Lies.grows_of_inner (h : x.Lies source) (hy : y ∈ s.inner x) :
    (s.finish y).Grows (s.finish x) := by
  obtain ⟨hdepth, r, m, before, part, after, state, hstate, htaken, hparts, rfl⟩ := mem_inner hy
  have hnext := next?_of_taken? htaken
  obtain ⟨action, start, stop⟩ := part
  obtain rfl : action = .scan state := by
    cases action with
    | token | keywords => cases hstate
    | scan target => rw [List.mem_singleton.1 hstate]
  rw [h.finish_next hnext]
  refine .trans ?_ (grows_finish s _)
  -- the scan of the group is one of the parts, and the parts behind it keep what it has found
  have hrescan := s.rescanAt_eq x.depth state (textBetween x.cursor start stop) start
    (before.foldl (emitPart (s.rescanAt x.depth) x.cursor) x.progress)
  rw [if_pos hdepth] at hrescan
  have hafter := s.obeys_grows.emitParts x.depth x.cursor after
    (emitPart (s.rescanAt x.depth) x.cursor
      (before.foldl (emitPart (s.rescanAt x.depth) x.cursor) x.progress) ⟨.scan state, start, stop⟩)
  rw [emitPart, emitGroup, hrescan] at hafter
  refine hafter.trans (Progress.grows_of_eq ?_ ?_)
  · dsimp only
    rw [tokens_follow, emit_eq_foldl, hparts, List.foldl_append, List.foldl_cons, emitPart,
      emitGroup, hrescan]
  · dsimp only
    rw [truncated_follow, emit_eq_foldl, hparts, List.foldl_append, List.foldl_cons, emitPart,
      emitGroup, hrescan]

theorem Visits.grows_run (h : s.Visits source x) : (s.finish x).Grows (s.run source) := by
  induction h with
  | refl =>
    rw [run_eq_finish]
    exact s.obeys_grows.refl _
  | tail hx hy ih =>
    cases hy with
    | next hy => exact (Visits.lies hx).finish_next hy ▸ ih
    | inner hy => exact ((Visits.lies hx).grows_of_inner hy).trans ih

/-- What is found at a point of a run is found in the end. -/
theorem Visits.mem_run_of_mem (h : s.Visits source x) (ht : t ∈ x.progress.tokens) :
    t ∈ (s.run source).tokens :=
  ((grows_finish s x).trans h.grows_run).tokens t ht

/-! ### What is found is found somewhere -/

/-- What is new behind some parts is new behind one of them. -/
theorem mem_emitParts {parts : List MatchPart} (h : t ∈ (parts.foldl (emitPart rescan c) p).tokens) :
    t ∈ p.tokens ∨ ∃ before part after, parts = before ++ part :: after ∧
      t ∉ (before.foldl (emitPart rescan c) p).tokens ∧
      t ∈ (emitPart rescan c (before.foldl (emitPart rescan c) p) part).tokens := by
  induction parts generalizing p with
  | nil => exact .inl h
  | cons part parts ih =>
    by_cases hp : t ∈ p.tokens
    · exact .inl hp
    rcases ih h with hfirst | ⟨before, part', after, rfl, hnew, hmem⟩
    · exact .inr ⟨[], part, parts, rfl, hp, hfirst⟩
    · exact .inr ⟨part :: before, part', after, rfl, hnew, hmem⟩

theorem mem_innerFrom_of_mem_states {depth state : Nat} {before after : List MatchPart}
    {part : MatchPart} (hstate : state ∈ part.action.states) :
    .start (depth + 1) state (textBetween c part.start part.stop) part.start
      (before.foldl (emitPart (s.rescanAt depth) c) p) ∈
        s.innerFrom depth c (before ++ part :: after) p := by
  induction before generalizing p with
  | nil => exact List.mem_append_left _ (List.mem_map_of_mem hstate)
  | cons part' before ih => exact List.mem_append_right _ ih

/-- What a point of a run adds is a part of a match, plain text or what the scan of a group finds. -/
theorem mem_next (hy : s.next? x = some y) (ht : t ∈ y.progress.tokens) :
    t ∈ x.progress.tokens ∨ t.category = .text ∨ s.Makes x t ∨
      ∃ z ∈ s.inner x, t ∈ (s.finish z).tokens ∧ t ∉ z.progress.tokens := by
  rcases next?_eq_some hy with ⟨r, m, htaken, rfl⟩ | ⟨-, -, ch, rest, -, rfl⟩
  · rw [tokens_follow, emit_eq_foldl] at ht
    rcases mem_emitParts ht with hold | ⟨before, part, after, hparts, hnew, hmem⟩
    · exact .inl hold
    have hpart : part ∈ r.parts x.cursor m := by simp [hparts]
    obtain ⟨action, start, stop⟩ := part
    cases action with
    | token category =>
      obtain ⟨rfl, hlt⟩ := (Progress.mem_push hmem).resolve_left hnew
      exact .inr (.inr (.inl ⟨r, m, _, htaken, hpart, hlt, rfl, rfl, rfl⟩))
    | keywords table =>
      obtain ⟨rfl, hlt⟩ := (Progress.mem_push hmem).resolve_left hnew
      exact .inr (.inr (.inl ⟨r, m, _, htaken, hpart, hlt, rfl, rfl, rfl⟩))
    | scan state =>
      rw [emitPart, emitGroup, rescanAt_eq] at hmem
      split at hmem
      · next hdepth =>
        refine .inr (.inr (.inr ⟨_, ?_, hmem, hnew⟩))
        rw [inner, htaken]
        dsimp only
        rw [if_pos hdepth, hparts]
        have hstate : state ∈ (⟨.scan state, start, stop⟩ : MatchPart).action.states :=
          List.mem_singleton_self state
        exact mem_innerFrom_of_mem_states hstate
      · obtain ⟨rfl, -⟩ := (Progress.mem_push hmem).resolve_left hnew
        exact .inr (.inl rfl)
  · rw [tokens_unmatched] at ht
    rcases Progress.mem_push ht with hold | ⟨rfl, -⟩
    · exact .inl hold
    · exact .inr (.inl rfl)

/-- What is found from a point on is a part of a match that is taken from there on, or plain
text. -/
theorem Point.Lies.exists_makes (h : x.Lies source) (ht : t ∈ (s.finish x).tokens) :
    t ∈ x.progress.tokens ∨ t.category = .text ∨
      ∃ y, Relation.ReflTransGen s.GoesTo x y ∧ s.Makes y t := by
  induction h.acc (s := s) with
  | intro x _ ih =>
    cases hy : s.next? x with
    | none =>
      rw [finish_eq_closing hy, closing] at ht
      split at ht
      · exact .inl ht
      · rw [tokens_truncate] at ht
        rcases Progress.mem_push ht with hold | ⟨rfl, -⟩
        · exact .inl hold
        · exact .inr (.inl rfl)
    | some y =>
      have hgoes : s.GoesTo x y := .next hy
      rw [h.finish_next hy] at ht
      rcases ih y hgoes (h.goesTo hgoes) ht with hmem | htext | ⟨z, hz, hmakes⟩
      · rcases mem_next hy hmem with hold | htext | hmakes | ⟨z, hz, hfound, hnew⟩
        · exact .inl hold
        · exact .inr (.inl htext)
        · exact .inr (.inr ⟨x, .refl, hmakes⟩)
        · have hgoes' : s.GoesTo x z := .inner hz
          rcases ih z hgoes' (h.goesTo hgoes') hfound with hmem | htext | ⟨w, hw, hmakes⟩
          · exact absurd hmem hnew
          · exact .inr (.inl htext)
          · exact .inr (.inr ⟨w, .head hgoes' hw, hmakes⟩)
      · exact .inr (.inl htext)
      · exact .inr (.inr ⟨z, .head hgoes hz, hmakes⟩)

/-- A token of a run that is no plain text is a part of a match that the run takes. -/
theorem exists_makes_of_mem_run (ht : t ∈ (s.run source).tokens) (htext : t.category ≠ .text) :
    ∃ x, s.Visits source x ∧ s.Makes x t := by
  rw [run_eq_finish] at ht
  rcases (origin_lies s source).exists_makes ht with hmem | hplain | hmade
  · cases (Array.not_mem_empty t hmem)
  · exact absurd hplain htext
  · exact hmade

end Scanner

end Highlighting
