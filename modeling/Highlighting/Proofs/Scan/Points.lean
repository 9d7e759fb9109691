import Mathlib.Logic.Relation
import Highlighting.Proofs.Scan.Limits
import Highlighting.Proofs.Scan.Parts

/-!
# The points that a run comes to

A point of a run says which scan is under way, how far it has come, and with which state stack and
progress.  From a point a run goes on to the next point of the same scan (`Scanner.next?`) and to
the first points of the scans that the groups of a match start (`Scanner.inner`); `Scanner.Visits`
collects the points that a run over a source comes to.

The points belong to the scanner's own run: what is left of a scan at a point (`Scanner.finish`) is
the same at the next point, and where there is none the scan is over (`Scanner.Point.Lies.ends`).
From no point does a run go on for ever (`Scanner.Point.Lies.acc`).  The steps of one scan are
followed by `Scanner.Steps`.
-/

namespace Highlighting

/-- A point of a run. -/
structure Scanner.Point where
  /-- the number of scans around the scan that is under way -/
  depth : Nat
  /-- the state in which the scan began -/
  initial : Nat
  /-- the text of the scan -/
  text : List Char
  /-- the offset of the text in the source -/
  base : Nat
  cursor : Cursor
  stack : List Nat
  progress : Progress
deriving DecidableEq

namespace Scanner

/-- The first point of a scan. -/
def Point.start (depth initial : Nat) (text : List Char) (base : Nat) (p : Progress) : Point :=
  ⟨depth, initial, text, base, .start text base, [initial], p⟩

/-- The state on top of the stack. -/
def Point.top (x : Point) : Nat := x.stack.headD 0

/-- How the scans at a depth have groups scanned anew. -/
def rescanAt (s : Scanner) (depth : Nat) : Rescan :=
  if depth < Limits.maxStateDepth then s.scan (Limits.maxStateDepth - depth - 1)
  else fun _ text offset p => p.push .text offset (offset + byteSize text)

/-- A scan goes on where a character is ahead and the token limit is not reached. -/
def IsOpen (s : Scanner) (x : Point) : Prop :=
  x.cursor.ahead ≠ [] ∧ x.progress.tokens.size < s.limit

instance (s : Scanner) (x : Point) : Decidable (s.IsOpen x) := inferInstanceAs (Decidable (_ ∧ _))

/-- The match that a scan takes at a point. -/
def taken? (s : Scanner) (x : Point) : Option (CompiledRule × RuleMatch) :=
  if s.IsOpen x then s.grammar.firstMatch? x.top x.cursor else none

/-- The next point of the scan. -/
def next? (s : Scanner) (x : Point) : Option Point :=
  match x.cursor.ahead with
  | [] => none
  | ch :: rest =>
    if s.limit ≤ x.progress.tokens.size then none
    else
      let next := s.step (s.rescanAt x.depth) x.cursor ch rest x.stack x.progress
      some { x with cursor := next.1, stack := next.2.1, progress := next.2.2 }

/-- The first points of the scans that parts of a match start. -/
def innerFrom (s : Scanner) (depth : Nat) (c : Cursor) : List MatchPart → Progress → List Point
  | [], _ => []
  | part :: parts, p =>
    part.action.states.map
        (fun state => .start (depth + 1) state (textBetween c part.start part.stop) part.start p) ++
      innerFrom s depth c parts (emitPart (s.rescanAt depth) c p part)

/-- The first points of the scans that are started at a point. -/
def inner (s : Scanner) (x : Point) : List Point :=
  match s.taken? x with
  | some (r, m) =>
    if x.depth < Limits.maxStateDepth then
      s.innerFrom x.depth x.cursor (r.parts x.cursor m) x.progress
    else []
  | none => []

/-- A run goes from a point to another. -/
inductive GoesTo (s : Scanner) (x y : Point) : Prop where
  | next (h : s.next? x = some y)
  | inner (h : y ∈ s.inner x)

/-- The first point of a run. -/
def origin (s : Scanner) (source : List Char) : Point := .start 0 s.grammar.root source 0 {}

/-- A run over a source comes to a point. -/
def Visits (s : Scanner) (source : List Char) (x : Point) : Prop :=
  Relation.ReflTransGen s.GoesTo (s.origin source) x

/-- What a scan has found in the end, from a point on. -/
def finish (s : Scanner) (x : Point) : Progress :=
  s.scanFrom (s.rescanAt x.depth) x.cursor.ahead x.cursor x.stack x.progress

/-- What a scan has found that does not go on. -/
def closing (s : Scanner) (x : Point) : Progress :=
  if x.cursor.ahead = [] then x.progress else s.truncate x.cursor x.progress

variable {s : Scanner} {x y : Point} {source : List Char}

/-! ### What a step does -/

/-- A scan takes a match or leaves a character unmatched. -/
theorem next?_eq_some (h : s.next? x = some y) :
    (∃ r m, s.taken? x = some (r, m) ∧
      let emitted := emit (s.rescanAt x.depth) x.cursor r m x.progress
      let followed := s.follow r.transition x.stack emitted
      y = { x with cursor := m.stop, stack := followed.1, progress := followed.2 }) ∨
    (s.IsOpen x ∧ s.grammar.firstMatch? x.top x.cursor = none ∧
      ∃ ch rest, x.cursor.ahead = ch :: rest ∧
        let found := s.unmatched x.top x.cursor ch x.progress
        y = { x with cursor := x.cursor.past ch rest, progress := found }) := by
  rw [next?] at h
  split at h
  · cases h
  · next ch rest hahead =>
    split at h
    · cases h
    · next hlimit =>
      have hopen : s.IsOpen x := ⟨by simp [hahead], Nat.lt_of_not_le hlimit⟩
      obtain rfl := Option.some.inj h
      rw [taken?, if_pos hopen]
      cases hmatch : s.grammar.firstMatch? x.top x.cursor with
      | some found =>
        left
        refine ⟨found.1, found.2, rfl, ?_⟩
        rw [Point.top] at hmatch
        simp only [step, hmatch]
      | none =>
        right
        refine ⟨hopen, rfl, ch, rest, hahead, ?_⟩
        rw [Point.top] at hmatch ⊢
        simp only [step, hmatch]

theorem next?_eq_none (h : s.next? x = none) : ¬ s.IsOpen x := by
  rw [next?] at h
  split at h
  · next hahead => exact fun hopen => hopen.1 hahead
  · split at h
    · next hlimit => exact fun hopen => Nat.not_lt_of_le hlimit hopen.2
    · cases h

theorem taken?_eq_some {r : CompiledRule} {m : RuleMatch} (h : s.taken? x = some (r, m)) :
    s.IsOpen x ∧ s.grammar.firstMatch? x.top x.cursor = some (r, m) := by
  rw [taken?] at h
  split at h
  · next hopen => exact ⟨hopen, h⟩
  · cases h

/-- A match is one of a rule of the state on top. -/
theorem mem_rules_of_taken? {r : CompiledRule} {m : RuleMatch} (h : s.taken? x = some (r, m)) :
    r ∈ s.grammar.rules x.top := (Grammar.mem_of_firstMatch? (taken?_eq_some h).2).1

theorem matchAt?_of_taken? {r : CompiledRule} {m : RuleMatch} (h : s.taken? x = some (r, m)) :
    r.matchAt? x.cursor = some m := (Grammar.mem_of_firstMatch? (taken?_eq_some h).2).2

theorem next?_of_taken? {r : CompiledRule} {m : RuleMatch} (h : s.taken? x = some (r, m)) :
    let emitted := emit (s.rescanAt x.depth) x.cursor r m x.progress
    let followed := s.follow r.transition x.stack emitted
    s.next? x = some { x with cursor := m.stop, stack := followed.1, progress := followed.2 } := by
  intro emitted followed
  cases hy : s.next? x with
  | none => exact absurd (taken?_eq_some h).1 (next?_eq_none hy)
  | some y =>
    rcases next?_eq_some hy with ⟨r', m', htaken, rfl⟩ | ⟨-, hnone, -⟩
    · obtain ⟨rfl, rfl⟩ := Prod.mk.inj (Option.some.inj (h.symm.trans htaken))
      rfl
    · rw [(taken?_eq_some h).2] at hnone
      cases hnone

theorem mem_innerFrom {depth : Nat} {c : Cursor} {parts : List MatchPart} {p : Progress}
    (h : y ∈ s.innerFrom depth c parts p) : ∃ before part after, ∃ state ∈ part.action.states,
      parts = before ++ part :: after ∧
        y = .start (depth + 1) state (textBetween c part.start part.stop) part.start
          (before.foldl (emitPart (s.rescanAt depth) c) p) := by
  induction parts generalizing p with
  | nil => cases h
  | cons part parts ih =>
    rcases List.mem_append.1 h with h | h
    · obtain ⟨state, hstate, rfl⟩ := List.mem_map.1 h
      exact ⟨[], part, parts, state, hstate, rfl, rfl⟩
    · obtain ⟨before, part', after, state, hstate, rfl, rfl⟩ := ih h
      exact ⟨part :: before, part', after, state, hstate, rfl, rfl⟩

/-- The scans that are started at a point are those of the parts of the match that is taken. -/
theorem mem_inner (h : y ∈ s.inner x) : x.depth < Limits.maxStateDepth ∧
    ∃ r m before part after, ∃ state ∈ part.action.states, s.taken? x = some (r, m) ∧
      r.parts x.cursor m = before ++ part :: after ∧
        y = .start (x.depth + 1) state (textBetween x.cursor part.start part.stop) part.start
          (before.foldl (emitPart (s.rescanAt x.depth) x.cursor) x.progress) := by
  rw [inner] at h
  split at h
  · next r m htaken =>
    split at h
    · next hdepth =>
      obtain ⟨before, part, after, state, hstate, hparts, rfl⟩ := mem_innerFrom h
      exact ⟨hdepth, r, m, before, part, after, state, hstate, htaken, hparts, rfl⟩
    · cases h
  · cases h

/-! ### Orders of progress -/

namespace Obeys

variable {le : Progress → Progress → Prop} {fits : Progress → List Nat → Prop}

theorem rescanAt (h : s.Obeys le fits) (depth : Nat) : Rescan.Obeys le (s.rescanAt depth) := by
  rw [Scanner.rescanAt]
  split
  · exact h.scan _
  · exact fun _ _ _ p => h.push p _ _ _

/-- The next point has later progress, and its stack fits it. -/
theorem next (h : s.Obeys le fits) (hfits : fits x.progress x.stack) (hy : s.next? x = some y) :
    le x.progress y.progress ∧ fits y.progress y.stack := by
  rw [next?] at hy
  split at hy
  · cases hy
  · split at hy
    · cases hy
    · obtain rfl := Option.some.inj hy
      exact h.step (h.rescanAt x.depth) _ _ _ hfits

theorem emitParts (h : s.Obeys le fits) (depth : Nat) (c : Cursor) (parts : List MatchPart)
    (p : Progress) : le p (parts.foldl (emitPart (s.rescanAt depth) c) p) := by
  induction parts generalizing p with
  | nil => exact h.refl p
  | cons part parts ih =>
    have hpart := h.emitGroup (h.rescanAt depth) c part.action part.start part.stop p
    exact h.trans hpart (ih _)

/-- A scan that is started at a point begins with later progress. -/
theorem inner (h : s.Obeys le fits) (hy : y ∈ s.inner x) :
    le x.progress y.progress ∧ fits y.progress y.stack := by
  obtain ⟨-, r, m, before, part, after, state, -, -, -, rfl⟩ := mem_inner hy
  exact ⟨h.emitParts x.depth x.cursor before x.progress, h.start _ state⟩

end Obeys

/-! ### Where the points lie -/

/-- The scan of a point is over a part of a source, and it has come to a place of this part. -/
structure Point.Lies (x : Point) (source : List Char) : Prop where
  text : (Cursor.start x.text x.base).LiesIn source
  cursor : (Cursor.start x.text x.base).Reaches x.cursor

theorem Point.Lies.placed (h : x.Lies source) : x.cursor.Placed :=
  h.cursor.placed (Cursor.placed_start _ _)

theorem Point.Lies.standsIn (h : x.Lies source) : x.cursor.StandsIn source := by
  obtain ⟨u, hu⟩ := h.cursor
  exact (Cursor.standsIn_of_liesIn h.text rfl).reads hu

theorem Point.Lies.inside (h : x.Lies source) {r : CompiledRule} {m : RuleMatch}
    (htaken : s.taken? x = some (r, m)) : m.Inside x.cursor :=
  Grammar.firstMatch?_inside h.placed (taken?_eq_some htaken).2

/-- The next point belongs to the same scan, and is behind some characters. -/
theorem Point.Lies.next (h : x.Lies source) (hy : s.next? x = some y) :
    y.Lies source ∧ y.depth = x.depth ∧ y.initial = x.initial ∧ y.text = x.text ∧
      y.base = x.base ∧ ∃ u, u ≠ [] ∧ x.cursor.Reads u y.cursor := by
  rcases next?_eq_some hy with ⟨r, m, htaken, rfl⟩ | ⟨-, -, ch, rest, hahead, rfl⟩
  · have hinside := h.inside htaken
    obtain ⟨u, hu⟩ := hinside.reaches
    exact ⟨⟨h.text, h.cursor.trans hu.reaches⟩, rfl, rfl, rfl, rfl, u,
      hu.ne_nil hinside.advances, hu⟩
  · have hread := Cursor.reads_past hahead
    exact ⟨⟨h.text, h.cursor.trans hread.reaches⟩, rfl, rfl, rfl, rfl, [ch], by simp, hread⟩

/-- A scan that is started at a point is over a part of the match that is taken there. -/
theorem Point.Lies.inner (h : x.Lies source) (hy : y ∈ s.inner x) :
    y.Lies source ∧ y.depth = x.depth + 1 ∧ y.depth ≤ Limits.maxStateDepth := by
  obtain ⟨hdepth, r, m, before, part, after, state, -, htaken, hparts, rfl⟩ := mem_inner hy
  have hmem : part ∈ r.parts x.cursor m := by simp [hparts]
  obtain ⟨v, w, z, e, hz, he, hstart, hstop⟩ :=
    CompiledRule.parts_lie (h.inside htaken) part hmem
  refine ⟨⟨?_, .refl _⟩, rfl, hdepth⟩
  rw [Point.start, hstart, hstop, textBetween_reads hz he]
  exact h.standsIn.liesIn.start hz he

theorem Point.Lies.goesTo (h : x.Lies source) (hy : s.GoesTo x y) : y.Lies source := by
  cases hy with
  | next hy => exact (h.next hy).1
  | inner hy => exact (h.inner hy).1

theorem origin_lies (s : Scanner) (source : List Char) : (s.origin source).Lies source :=
  ⟨Cursor.liesIn_start source, .refl _⟩

theorem Visits.lies (h : s.Visits source x) : x.Lies source := by
  induction h with
  | refl => exact origin_lies s source
  | tail _ hy ih => exact ih.goesTo hy

theorem Visits.depth_le (h : s.Visits source x) : x.depth ≤ Limits.maxStateDepth := by
  induction h with
  | refl => exact Nat.zero_le _
  | tail hx hy ih =>
    cases hy with
    | next hy => exact (Visits.lies hx).next hy |>.2.1 ▸ ih
    | inner hy => exact (Visits.lies hx).inner hy |>.2.2

/-- A scan that no other is around is that of the whole source. -/
theorem Visits.whole (h : s.Visits source x) (hdepth : x.depth = 0) :
    x.text = source ∧ x.base = 0 := by
  induction h with
  | refl => exact ⟨rfl, rfl⟩
  | @tail x y hx hy ih =>
    have hlies := Visits.lies hx
    cases hy with
    | next hy =>
      obtain ⟨-, hsame, -, htext, hbase, -⟩ := hlies.next hy
      rw [htext, hbase]
      exact ih (hsame ▸ hdepth)
    | inner hy =>
      obtain ⟨-, hdeeper, -⟩ := hlies.inner hy
      omega

/-! ### The steps of one scan -/

/-- A scan goes from a point to another in some steps. -/
def Steps (s : Scanner) : Point → Point → Prop :=
  Relation.ReflTransGen fun x y => s.next? x = some y

/-- The point that a scan comes to after some steps. -/
def after? (s : Scanner) : Nat → Point → Option Point
  | 0, x => some x
  | n + 1, x => (s.next? x).bind (s.after? n)

theorem steps_of_after? {n : Nat} (h : s.after? n x = some y) : s.Steps x y := by
  induction n generalizing x with
  | zero =>
    obtain rfl := Option.some.inj h
    exact .refl
  | succ n ih =>
    obtain ⟨z, hz, h⟩ := Option.bind_eq_some_iff.1 h
    exact .head hz (ih h)

theorem Steps.visits (h : s.Steps x y) (hx : s.Visits source x) : s.Visits source y := by
  induction h with
  | refl => exact hx
  | tail _ hy ih => exact ih.tail (.next hy)

/-- In some steps a scan reads something, or it stays at its point. -/
theorem Steps.reads (h : s.Steps x y) (hlies : x.Lies source) :
    x = y ∨ ∃ u, u ≠ [] ∧ x.cursor.Reads u y.cursor := by
  induction h using Relation.ReflTransGen.head_induction_on with
  | refl => exact .inl rfl
  | head hy _ ih =>
    obtain ⟨hlies, -, -, -, -, u, hne, hu⟩ := hlies.next hy
    rcases ih hlies with rfl | ⟨v, -, hv⟩
    · exact .inr ⟨u, hne, hu⟩
    · exact .inr ⟨u ++ v, by simp [hne], hu.trans hv⟩

/-- Some steps that read something begin with a step that reads the beginning of it. -/
theorem Steps.exists_next (h : s.Steps x y) (hlies : x.Lies source) {u : List Char}
    (hu : x.cursor.Reads u y.cursor) (hne : u ≠ []) :
    ∃ z v w, s.next? x = some z ∧ s.Steps z y ∧ v ≠ [] ∧ u = v ++ w ∧
      x.cursor.Reads v z.cursor ∧ z.cursor.Reads w y.cursor ∧ (w = [] → z = y) := by
  cases h using Relation.ReflTransGen.head_induction_on with
  | refl => exact absurd (hu.text_unique (.refl _)) hne
  | @head x z hz h =>
    obtain ⟨hlies, -, -, -, -, v, hv, hread⟩ := hlies.next hz
    rcases Steps.reads h hlies with rfl | ⟨w, hw, hread'⟩
    · obtain rfl := hu.text_unique hread
      exact ⟨z, u, [], hz, h, hne, (List.append_nil u).symm, hread, rfl, fun _ => rfl⟩
    · obtain rfl := hu.text_unique (hread.trans hread')
      exact ⟨z, v, w, hz, h, hv, rfl, hread, hread', fun hnil => absurd hnil hw⟩

/-! ### The points belong to the run -/

/-- A scan does not depend on how many steps it may take, if they are enough. -/
theorem scanFrom_bound {rescan : Rescan} {bound bound' : List Char} {c : Cursor} (hc : c.Placed)
    (h : c.ahead.length ≤ bound.length) (h' : c.ahead.length ≤ bound'.length) (stack : List Nat)
    (p : Progress) :
    s.scanFrom rescan bound c stack p = s.scanFrom rescan bound' c stack p := by
  induction bound generalizing c bound' stack p with
  | nil =>
    have hnil : c.ahead = [] := List.length_eq_zero_iff.1 (Nat.le_zero.1 h)
    rw [scanFrom_of_nil hnil, scanFrom_of_nil hnil]
  | cons b bound ih =>
    cases hahead : c.ahead with
    | nil => rw [scanFrom_of_nil hahead, scanFrom_of_nil hahead]
    | cons ch rest =>
      cases bound' with
      | nil => simp [hahead] at h'
      | cons b' bound' =>
        rw [scanFrom_of_cons hahead, scanFrom_of_cons hahead]
        split
        · rfl
        · have hstep := step_reaches s rescan hc hahead stack p
          have hlt : (s.step rescan c ch rest stack p).1.ahead.length < c.ahead.length := by
            rw [step]
            split
            · next r m hm => exact (Grammar.firstMatch?_inside hc hm).length_lt
            · simp [hahead]
          rw [List.length_cons] at h h'
          exact ih (hstep.placed hc) (by omega) (by omega) _ _

/-- Up to the greatest depth, a group that is scanned anew becomes what a scan of its own finds. -/
theorem scan_eq_finish {depth : Nat} (h : depth ≤ Limits.maxStateDepth) (state : Nat)
    (text : List Char) (offset : Nat) (p : Progress) :
    s.scan (Limits.maxStateDepth - depth) state text offset p =
      s.finish (.start depth state text offset p) := by
  suffices hscan : s.scan (Limits.maxStateDepth - depth) state text offset p =
      s.scanFrom (s.rescanAt depth) text (.start text offset) [state] p from hscan
  rcases Nat.lt_or_eq_of_le h with hlt | rfl
  · obtain ⟨levels, hlevels⟩ : ∃ levels, Limits.maxStateDepth - depth = levels + 1 :=
      ⟨Limits.maxStateDepth - depth - 1, by omega⟩
    rw [rescanAt, if_pos hlt, hlevels]
    rfl
  · rw [rescanAt, if_neg (Nat.lt_irrefl _), Nat.sub_self]
    rfl

theorem rescanAt_eq (s : Scanner) (depth state : Nat) (text : List Char) (offset : Nat)
    (p : Progress) :
    s.rescanAt depth state text offset p =
      if depth < Limits.maxStateDepth then s.finish (.start (depth + 1) state text offset p)
      else p.push .text offset (offset + byteSize text) := by
  by_cases h : depth < Limits.maxStateDepth
  · rw [if_pos h, ← scan_eq_finish h, rescanAt, if_pos h, Nat.sub_sub]
  · rw [if_neg h, rescanAt, if_neg h]

/-- A run is what is left of it at its first point. -/
theorem run_eq_finish (s : Scanner) (source : List Char) :
    s.run source = s.finish (s.origin source) :=
  scan_eq_finish (Nat.zero_le _) _ _ _ _

theorem Point.Lies.finish_next (h : x.Lies source) (hy : s.next? x = some y) :
    s.finish x = s.finish y := by
  obtain ⟨hlies, -, -, -, -, u, hu, hread⟩ := h.next hy
  have hlt := hread.length_lt hu
  rw [next?] at hy
  split at hy
  · cases hy
  next ch rest hahead =>
  split at hy
  · cases hy
  next hlimit =>
  obtain rfl := Option.some.inj hy
  rw [finish, finish]
  conv_lhs => rw [hahead, scanFrom_of_cons hahead, if_neg hlimit]
  rw [hahead, List.length_cons] at hlt
  exact scanFrom_bound hlies.placed (Nat.le_of_lt_succ hlt) (Nat.le_refl _) _ _

/-- What is left of the scan of the source itself is the same at all of its points. -/
theorem Visits.finish_eq_run (h : s.Visits source x) (hdepth : x.depth = 0) :
    s.finish x = s.run source := by
  induction h with
  | refl => exact (run_eq_finish s source).symm
  | @tail x y hx hy ih =>
    have hlies := Visits.lies hx
    cases hy with
    | next hy =>
      obtain ⟨-, hsame, -⟩ := hlies.next hy
      rw [← hlies.finish_next hy]
      exact ih (hsame ▸ hdepth)
    | inner hy =>
      obtain ⟨-, hdeeper, -⟩ := hlies.inner hy
      omega

/-- What the scan of the source has found at a point it has found in the end. -/
theorem Visits.mem_run (h : s.Visits source x) (hdepth : x.depth = 0) {t : RawToken}
    (ht : t ∈ x.progress.tokens) : t ∈ (s.run source).tokens := by
  rw [← h.finish_eq_run hdepth]
  exact (s.obeys_grows.scanFrom (s.obeys_grows.rescanAt x.depth) _ _ trivial).tokens t ht

theorem finish_eq_closing (h : s.next? x = none) : s.finish x = s.closing x := by
  rw [finish, closing]
  split
  · next hnil => rw [scanFrom_of_nil hnil]
  · next hne =>
    obtain ⟨ch, rest, hahead⟩ := List.exists_cons_of_ne_nil hne
    have hlimit : s.limit ≤ x.progress.tokens.size := by
      by_contra hlt
      exact next?_eq_none h ⟨hne, Nat.lt_of_not_le hlt⟩
    rw [hahead, scanFrom_of_cons hahead, if_pos hlimit]

/-- Every scan comes to a point where it is over, and has then found what it finds. -/
theorem Point.Lies.ends (h : x.Lies source) : ∃ y,
    Relation.ReflTransGen (fun x y => s.next? x = some y) x y ∧ s.next? y = none ∧
      s.finish x = s.closing y := by
  induction hn : x.cursor.ahead.length using Nat.strongRecOn generalizing x with
  | ind n ih =>
    cases hy : s.next? x with
    | none => exact ⟨x, .refl, hy, finish_eq_closing hy⟩
    | some y =>
      obtain ⟨hlies, -, -, -, -, u, hu, hread⟩ := h.next hy
      obtain ⟨z, hz, hend, hfinish⟩ := ih _ (hn ▸ hread.length_lt hu) hlies rfl
      exact ⟨z, .head hy hz, hend, (h.finish_next hy).trans hfinish⟩

/-- A run does not go on for ever: a step leaves less ahead, and a scan that is started inside of
another is one level deeper. -/
theorem Point.Lies.acc (h : x.Lies source) : Acc (fun y x => s.GoesTo x y) x := by
  induction hlevel : Limits.maxStateDepth - x.depth using Nat.strongRecOn generalizing x with
  | ind level ihlevel =>
  induction hn : x.cursor.ahead.length using Nat.strongRecOn generalizing x with
  | ind n ih =>
    refine ⟨x, fun y hy => ?_⟩
    cases hy with
    | next hy =>
      obtain ⟨hlies, hdepth, -, -, -, u, hu, hread⟩ := h.next hy
      exact ih _ (hn ▸ hread.length_lt hu) hlies (hdepth ▸ hlevel) rfl
    | inner hy =>
      obtain ⟨hlies, hdepth, hle⟩ := h.inner hy
      exact ihlevel _ (by omega) hlies rfl

end Scanner

end Highlighting
