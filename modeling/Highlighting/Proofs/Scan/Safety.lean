import Highlighting.Proofs.Grammar.References
import Highlighting.Proofs.Scan.Points
import Highlighting.Proofs.Scan.Positions

/-!
# Runs are safe

Nothing that a run of a built grammar looks up, cuts or counts is missing, off a character's
boundary or too large (`Definition.build_runsSafely`).  At every point of a run the state stack has
the first state of its scan at the bottom, at most `Limits.maxStateDepth` entries and states of the
grammar only (`Scanner.Point.IsSound`).  The stack is never higher than what the counters of the
run have seen, which is what bounds them in turn (`Progress.Bounded`).
-/

namespace Highlighting

/-! ### The counters of the state stack -/

/-- The stack was never higher than the limit, and pushes were ignored only on a full stack. -/
structure Progress.Bounded (p : Progress) : Prop where
  maxDepth : p.maxDepth ≤ Limits.maxStateDepth
  ignored : 0 < p.ignoredPushes → p.maxDepth = Limits.maxStateDepth

/-- Later progress has seen stacks as high as the earlier, and is bounded if that is. -/
structure Progress.Deepens (p q : Progress) : Prop where
  maxDepth : p.maxDepth ≤ q.maxDepth
  bounded : p.Bounded → q.Bounded

/-- The height of a state stack was seen: a scan begins with one entry, and pushes are counted. -/
def Progress.HasSeen (p : Progress) (stack : List Nat) : Prop := stack.length ≤ max 1 p.maxDepth

namespace Progress

variable {p q q' : Progress} {stack : List Nat}

theorem bounded_empty : Bounded {} := ⟨Nat.zero_le _, fun h => absurd h (Nat.lt_irrefl 0)⟩

theorem Deepens.refl (p : Progress) : p.Deepens p := ⟨Nat.le_refl _, id⟩

theorem Deepens.trans (h : p.Deepens q) (h' : q.Deepens q') : p.Deepens q' :=
  ⟨Nat.le_trans h.maxDepth h'.maxDepth, fun hp => h'.bounded (h.bounded hp)⟩

theorem deepens_of_eq (hdepth : q.maxDepth = p.maxDepth)
    (hignored : q.ignoredPushes = p.ignoredPushes) : p.Deepens q := by
  refine ⟨Nat.le_of_eq hdepth.symm, fun h => ⟨hdepth ▸ h.maxDepth, ?_⟩⟩
  rw [hdepth, hignored]
  exact h.ignored

theorem push_deepens (p : Progress) (category : Category) (start stop : Nat) :
    p.Deepens (p.push category start stop) := by
  unfold push
  split
  · exact deepens_of_eq rfl rfl
  · exact .refl p

theorem HasSeen.deepens (h : p.HasSeen stack) (hq : p.Deepens q) : q.HasSeen stack := by
  have := hq.maxDepth
  unfold HasSeen at h ⊢
  omega

theorem HasSeen.length_le (h : p.HasSeen stack) (hp : p.Bounded) :
    stack.length ≤ Limits.maxStateDepth := by
  have hmax := hp.maxDepth
  have hone : 1 ≤ Limits.maxStateDepth := by decide
  unfold HasSeen at h
  omega

end Progress

namespace Scanner

variable {s : Scanner} {rescan : Rescan} {c : Cursor} {p : Progress} {stack : List Nat}

theorem unmatched_deepens (s : Scanner) (state : Nat) (c : Cursor) (ch : Char) (p : Progress) :
    p.Deepens (s.unmatched state c ch p) := by
  refine Progress.Deepens.trans ?_ (Progress.push_deepens _ _ _ _)
  split <;> exact Progress.deepens_of_eq rfl rfl

theorem truncate_deepens (s : Scanner) (c : Cursor) (p : Progress) :
    p.Deepens (s.truncate c p) := by
  refine Progress.Deepens.trans ?_ (Progress.push_deepens _ _ _ _)
  split <;> exact Progress.deepens_of_eq rfl rfl

/-- A push onto a stack that was seen is counted, or it is ignored because the stack is full. -/
theorem follow_deepens (s : Scanner) (t : Transition Nat) (h : p.HasSeen stack) :
    p.Deepens (s.follow t stack p).2 ∧ (s.follow t stack p).2.HasSeen (s.follow t stack p).1 := by
  cases t with
  | stay => exact ⟨.refl p, h⟩
  | pop =>
    refine ⟨.refl p, ?_⟩
    unfold follow Progress.HasSeen at *
    dsimp only
    split
    · rw [List.length_drop]
      omega
    · exact h
  | push state =>
    unfold Progress.HasSeen at h
    unfold follow
    dsimp only
    split
    · next hfull =>
      have hone : 1 < Limits.maxStateDepth := by decide
      have hcounters : ∀ q : Progress, q.maxDepth = p.maxDepth → p.Deepens q ∧ q.HasSeen stack := by
        intro q hq
        unfold Progress.HasSeen
        refine ⟨⟨Nat.le_of_eq hq.symm, fun hp => ⟨hq ▸ hp.maxDepth, fun _ => ?_⟩⟩, hq ▸ h⟩
        have := hp.maxDepth
        omega
      split
      · exact hcounters _ rfl
      · exact hcounters _ rfl
    · next hroom =>
      refine ⟨⟨Nat.le_max_left _ _, fun hp => ⟨?_, fun hignored => ?_⟩⟩, ?_⟩
      · have := hp.maxDepth
        dsimp only
        omega
      · have := hp.ignored hignored
        dsimp only
        omega
      · unfold Progress.HasSeen
        rw [List.length_cons]
        dsimp only
        omega

theorem hasSeen_single (p : Progress) (state : Nat) : p.HasSeen [state] := Nat.le_max_left _ _

/-- In a scan the highest stack that was seen becomes no lower, and stays bounded. -/
theorem obeys_deepens (s : Scanner) : s.Obeys Progress.Deepens Progress.HasSeen where
  refl := .refl
  trans := .trans
  push := Progress.push_deepens
  unmatched := s.unmatched_deepens
  truncate := s.truncate_deepens
  start := hasSeen_single
  later := .deepens
  follow t _ _ h := s.follow_deepens t h

theorem run_bounded (s : Scanner) (source : List Char) : (s.run source).Bounded :=
  (s.obeys_deepens.scan _ _ _ _ _).bounded Progress.bounded_empty

/-! ### The state stack -/

/-- The stack of a scan stands on the first state of the scan, its height was seen, and its states
are those of the grammar. -/
structure Point.IsStacked (x : Point) (g : Grammar) : Prop where
  bottom : x.stack.getLast? = some x.initial
  seen : x.progress.HasSeen x.stack
  bounded : x.progress.Bounded
  valid : ∀ state ∈ x.stack, g.HasIndex state

variable {x y : Point} {source : List Char}

theorem isStacked_start {g : Grammar} {state : Nat} (hstate : g.HasIndex state) (hp : p.Bounded)
    (depth : Nat) (text : List Char) (base : Nat) :
    (Point.start depth state text base p).IsStacked g :=
  ⟨rfl, hasSeen_single p state, hp, fun _ h => List.mem_singleton.1 h ▸ hstate⟩

theorem getLast?_follow (s : Scanner) (t : Transition Nat) (p : Progress) {bottom : Nat}
    (h : stack.getLast? = some bottom) : (s.follow t stack p).1.getLast? = some bottom := by
  rcases follow_cases s t stack p with heq | ⟨-, hlength, heq⟩ | ⟨state, -, -, heq⟩
  · rw [heq, h]
  · rw [heq, List.getLast?_drop, if_neg (by omega), h]
  · rw [heq, List.getLast?_cons, h]
    rfl

theorem Point.IsStacked.next (hclosed : s.grammar.IsClosed) (h : x.IsStacked s.grammar)
    (hy : s.next? x = some y) : y.IsStacked s.grammar := by
  obtain ⟨hdeepens, hseen⟩ := s.obeys_deepens.next h.seen hy
  have hbounded := hdeepens.bounded h.bounded
  rcases next?_eq_some hy with ⟨r, m, htaken, rfl⟩ | ⟨-, -, ch, rest, -, rfl⟩
  · refine ⟨getLast?_follow s _ _ h.bottom, hseen, hbounded, ?_⟩
    intro state hstate
    rcases follow_states s _ _ _ state hstate with hstate | hstate
    · exact h.valid state hstate
    · exact hclosed.rules _ r (mem_rules_of_taken? htaken) _ (List.mem_append_left _ hstate)
  · exact ⟨h.bottom, hseen, hbounded, h.valid⟩

theorem Point.IsStacked.inner (hclosed : s.grammar.IsClosed) (h : x.IsStacked s.grammar)
    (hy : y ∈ s.inner x) : y.IsStacked s.grammar := by
  have hbounded := (s.obeys_deepens.inner hy).1.bounded h.bounded
  obtain ⟨-, r, m, before, part, after, state, hstate, htaken, hparts, rfl⟩ := mem_inner hy
  have hmem : part ∈ r.parts x.cursor m := by simp [hparts]
  refine isStacked_start ?_ hbounded _ _ _
  have htarget := CompiledRule.states_of_mem_parts hmem state hstate
  exact hclosed.rules _ r (mem_rules_of_taken? htaken) _ (List.mem_append_right _ htarget)

theorem Visits.isStacked (hclosed : s.grammar.IsClosed) (h : s.Visits source x) :
    x.IsStacked s.grammar := by
  induction h with
  | refl => exact isStacked_start hclosed.root Progress.bounded_empty _ _ _
  | tail _ hy ih =>
    cases hy with
    | next hy => exact ih.next hclosed hy
    | inner hy => exact ih.inner hclosed hy

/-! ### Safe points -/

/-- A text stands in another, which lies at an offset, between two offsets. -/
def IsSlice (text : List Char) (base : Nat) (w : List Char) (start stop : Nat) : Prop :=
  ∃ before after, text = before ++ (w ++ after) ∧ start = base + byteSize before ∧
    stop = start + byteSize w

/-- Nothing goes wrong at a point of a run. -/
structure Point.IsSound (x : Point) (s : Scanner) (source : List Char) : Prop where
  /-- the scan is nested in as many others as the limit says at most -/
  nested : x.depth ≤ Limits.maxStateDepth
  /-- the scan is over a part of the source -/
  text : IsSlice source 0 x.text x.base (x.base + byteSize x.text)
  /-- what is ahead is the rest of the text from a character's boundary on, and the character before
  is the one there -/
  place : ∃ u, x.text = u ++ x.cursor.ahead ∧ x.cursor.before = u.getLast? ∧
    x.cursor.offset = x.base + byteSize u
  /-- the stack stands on the first state of the scan -/
  bottom : x.stack.getLast? = some x.initial
  /-- the stack is not too high -/
  height : x.stack.length ≤ Limits.maxStateDepth
  /-- the stack has states of the grammar only -/
  valid : ∀ state ∈ x.stack, s.grammar.HasIndex state
  /-- a match takes some characters that are ahead, and its groups and the text between them are
  between boundaries of characters -/
  slices : ∀ r m, s.taken? x = some (r, m) →
    (∃ u, u ≠ [] ∧ x.cursor.ahead = u ++ m.stop.ahead ∧
      m.stop.offset = x.cursor.offset + byteSize u) ∧
    ∀ part ∈ r.parts x.cursor m,
      IsSlice x.text x.base (textBetween x.cursor part.start part.stop) part.start part.stop
  /-- a group that is scanned anew becomes what a scan one level deeper finds, and a plain token on
  the last level -/
  groups : ∀ state text offset p, s.rescanAt x.depth state text offset p =
    if x.depth < Limits.maxStateDepth then s.finish (.start (x.depth + 1) state text offset p)
    else p.push .text offset (offset + byteSize text)
  /-- the scan comes to an end, where all is found that the scan finds -/
  ends : ∃ y, Relation.ReflTransGen (fun x y => s.next? x = some y) x y ∧ s.next? y = none ∧
    s.finish x = s.closing y
  /-- from here on the run does not go on for ever, neither in this scan nor in those that it
  starts -/
  terminates : Acc (fun y x => s.GoesTo x y) x

/-- A part that lies ahead of a place of a text is a slice of the text. -/
theorem isSlice_of_liesAhead {text : List Char} {base : Nat}
    (hc : (Cursor.start text base).Reaches c) {part : MatchPart} (h : part.LiesAhead c) :
    IsSlice text base (textBetween c part.start part.stop) part.start part.stop := by
  obtain ⟨u, hu⟩ := hc
  obtain ⟨v, w, z, e, hz, he, hstart, hstop⟩ := h
  have hread := hu.trans hz
  have htext : text = (u ++ v) ++ (w ++ e.ahead) := by
    rw [← he.ahead]
    exact hread.ahead
  rw [hstart, hstop, textBetween_reads hz he]
  exact ⟨u ++ v, e.ahead, htext, hread.offset, he.offset⟩

theorem Visits.isSound (hclosed : s.grammar.IsClosed) (h : s.Visits source x) :
    x.IsSound s source := by
  have hlies := h.lies
  have hstacked := h.isStacked hclosed
  obtain ⟨u, hu⟩ := hlies.cursor
  obtain ⟨before, after, hsource, hbase⟩ := hlies.text
  refine ⟨h.depth_le, ⟨before, after, hsource, ?_, rfl⟩, ⟨u, hu.ahead, ?_, hu.offset⟩,
    hstacked.bottom, hstacked.seen.length_le hstacked.bounded, hstacked.valid,
    fun r m htaken => ⟨?_, fun part hpart => ?_⟩, rescanAt_eq s x.depth, hlies.ends, hlies.acc⟩
  · rw [Nat.zero_add]
    exact hbase
  · rw [hu.before]
    exact Option.or_none
  · obtain ⟨v, hv⟩ := (hlies.inside htaken).reaches
    exact ⟨v, hv.ne_nil (hlies.inside htaken).advances, hv.ahead, hv.offset⟩
  · exact isSlice_of_liesAhead hlies.cursor
      (CompiledRule.parts_lie (hlies.inside htaken) part hpart)

end Scanner

/-! ### Safe runs -/

/-- The run of a grammar over a source is safe, and so are the numbers of its outcome, which are to
be stored in 32 bits where they count lines and columns. -/
structure Grammar.RunsSafely (g : Grammar) (prefs : LexicalPreferences) (source : String) :
    Prop where
  /-- the run is over the whole source, from the root state -/
  run : g.progress prefs source =
    Scanner.finish ⟨g, prefs.tokenLimit, prefs.logUnmatched⟩
      (Scanner.origin ⟨g, prefs.tokenLimit, prefs.logUnmatched⟩ source.toList)
  points : ∀ x, Scanner.Visits ⟨g, prefs.tokenLimit, prefs.logUnmatched⟩ source.toList x →
    x.IsSound ⟨g, prefs.tokenLimit, prefs.logUnmatched⟩ source.toList
  /-- the texts of the tokens are between boundaries of characters -/
  tokens : ∀ t ∈ (g.tokenize prefs source).value.tokens, ∃ before after,
    source.toList = before ++ (t.text.toList ++ after) ∧
      t.span = .covering (Position.start.advanceText before) t.text.toList
  /-- no line and no column on the way through the source is too large -/
  positions : ∀ before after, source.toList = before ++ after →
    (Position.start.advanceText before).line < 2 ^ 32 ∧
      (Position.start.advanceText before).column < 2 ^ 32
  height : (g.tokenize prefs source).value.metrics.maxStackDepth ≤ Limits.maxStateDepth
  ignored : 0 < (g.tokenize prefs source).value.metrics.ignoredPushes →
    (g.tokenize prefs source).value.metrics.maxStackDepth = Limits.maxStateDepth

namespace Definition

/-- Whatever definition can be built and whatever source is given to its grammar, the run is safe as
long as the bytes of the source can be counted in 32 bits. -/
theorem build_runsSafely {d : Definition} {g : Grammar} (hbuild : d.build.value = .ok g)
    (prefs : LexicalPreferences) {source : String} (hsize : source.utf8ByteSize < 2 ^ 32 - 1) :
    g.RunsSafely prefs source := by
  rw [build_eq_compile] at hbuild
  have hclosed := isClosed_of_compile hbuild
  let s : Scanner := ⟨g, prefs.tokenLimit, prefs.logUnmatched⟩
  have hbounded := s.run_bounded source.toList
  refine ⟨Scanner.run_eq_finish s source.toList, fun x hx => hx.isSound hclosed, fun t ht => ?_,
    fun before after hsource => ?_, hbounded.maxDepth, hbounded.ignored⟩
  · rw [Grammar.tokenize_tokens_eq_resolve] at ht
    obtain ⟨t, hmem, rfl⟩ := List.mem_map.1 ht
    obtain ⟨w, hspells⟩ := g.rawTokens_spells hmem
    obtain ⟨before, after, hsource, hstart, hstop⟩ := hspells
    refine ⟨before, after, ?_, ?_⟩
    · rw [hsource, RawToken.resolve_append hstart (hstart ▸ hstop), String.toList_ofList]
    · rw [hsource, RawToken.resolve_append hstart (hstart ▸ hstop), String.toList_ofList]
  · have hafter := Position.After.start.advanceText before
    obtain ⟨hline, hcolumn⟩ := hafter.small
    have hlength : byteSize before ≤ source.utf8ByteSize := by
      rw [utf8ByteSize_eq, hsource, byteSize_append]
      exact Nat.le_add_right _ _
    rw [List.nil_append] at hline hcolumn
    omega

/-- A group that has the whole match scanned anew in the same state. -/
theorem build_runsSafely_nest :
    let nest : Definition := ⟨"nest", [(rootState, [.rule (.groups "(.+)" [.scan rootState])])]⟩
    ∃ g, nest.build.value = .ok g ∧ "ab".utf8ByteSize < 2 ^ 32 - 1 ∧ g.RunsSafely {} "ab" ∧
      (g.tokenize {} "ab").value.tokens.map Token.text = ["ab"] := by
  intro nest
  have htexts : nest.build.value.toOption.map (fun g =>
      (g.tokenize {} "ab").value.tokens.map Token.text) = some ["ab"] := by
    decide +kernel
  obtain ⟨g, hg, htexts⟩ := Option.map_eq_some_iff.1 htexts
  have hbuild := Except.eq_ok_of_toOption hg
  have hsize : "ab".utf8ByteSize < 2 ^ 32 - 1 := by decide
  exact ⟨g, hbuild, hsize, build_runsSafely hbuild {} hsize, htexts⟩

end Definition

end Highlighting
