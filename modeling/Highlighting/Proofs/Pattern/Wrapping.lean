import Highlighting.Proofs.Pattern.Lexing
import Highlighting.Proofs.Pattern.NormalForm

/-!
# Patterns in a group

The written patterns of a rule are the declared pattern in a group, behind a condition and, for a
text that begins one character before the cursor, a set.  A pattern that is read by itself is read
alike inside a group: each step leaves the groups around it as they are (`step_within`).  So the
written patterns are read as sequences with the pattern in them, with groups of the same numbers
and nested two levels deeper (`parse_startText_eq`, `parse_contextText_eq`, `parse_wholeText_eq`).
-/

namespace Highlighting

namespace Pattern

variable {f : Frame} {r s : Partial} {l : Lexeme} {ls : List Lexeme} {p : Pattern}

/-! ### Reading inside a group -/

/-- A partly read pattern inside one more group. -/
def Partial.within (r : Partial) (f : Frame) : Partial := { r with outer := r.outer ++ [f] }

/-- A step inside a group leaves the group as it is. -/
theorem step_within (f : Frame) (h : step r l = .ok s) : step (r.within f) l = .ok (s.within f) := by
  rcases step_cases h with ⟨-, houter, hstep⟩ | ⟨-, houter, hstep⟩ | ⟨rfl, g, outer, houter, rfl⟩
  · rw [Partial.within, Partial.within, hstep, houter]
  · rw [Partial.within, Partial.within, hstep, houter]
    rfl
  · rw [Partial.within, step, houter]
    rfl

theorem foldlM_within (f : Frame) (h : ls.foldlM step r = .ok s) :
    ls.foldlM step (r.within f) = .ok (s.within f) := by
  induction ls generalizing r with
  | nil =>
    obtain rfl := Except.ok.inj h
    rfl
  | cons l ls ih =>
    rw [List.foldlM_cons] at h ⊢
    obtain ⟨r', hr', h⟩ := Except.bind_eq_ok h
    rw [step_within f hr']
    exact ih h

/-- The numbers of the open groups, the innermost first. -/
def Partial.indices (r : Partial) : List (Option Nat) := (r.frame :: r.outer).map Frame.index

/-- The outermost group stays the same. -/
theorem getLast?_indices_step (h : step r l = .ok s) :
    s.indices.getLast? = r.indices.getLast? := by
  rw [Partial.indices, Partial.indices]
  rcases step_cases h with ⟨hg, houter, -⟩ | ⟨-, houter, -⟩ | ⟨-, g, outer, houter, rfl⟩
  · rw [houter, List.map_cons, List.map_cons, hg.index]
  · rw [houter]
    rfl
  · rw [houter]
    rfl

theorem getLast?_indices_foldlM (h : ls.foldlM step r = .ok s) :
    s.indices.getLast? = r.indices.getLast? := by
  induction ls generalizing r with
  | nil =>
    obtain rfl := Except.ok.inj h
    rfl
  | cons l ls ih =>
    rw [List.foldlM_cons] at h
    obtain ⟨r', hr', h⟩ := Except.bind_eq_ok h
    exact (ih h).trans (getLast?_indices_step hr')

/-- A pattern that is read by itself is read in a group of its own. -/
theorem foldlM_group (h : ls.foldlM step .start = .ok s) (houter : s.outer = []) (f : Frame)
    (after : List Lexeme) :
    (.openPlain id :: (ls ++ .close :: after)).foldlM step ⟨f, [], {}, 0, []⟩ =
      after.foldlM step ⟨f.add ⟨s.frame.pattern.value, s.frame.pattern.depth + 1⟩, [],
        s.frame.outerFlags, s.groups, s.names⟩ := by
  have hindex : s.frame.index = none := by
    have hlast := getLast?_indices_foldlM h
    rw [Partial.indices, houter] at hlast
    exact Option.some.inj hlast
  have hclosed : s.frame.closed = ⟨s.frame.pattern.value, s.frame.pattern.depth + 1⟩ := by
    rw [Frame.closed, hindex]
  have hclose : step (s.within f) .close =
      .ok ⟨f.add s.frame.closed, [], s.frame.outerFlags, s.groups, s.names⟩ := by
    unfold step
    dsimp only [Partial.within]
    rw [houter]
    rfl
  have hopen : (.openPlain id :: (ls ++ .close :: after)).foldlM step ⟨f, [], {}, 0, []⟩ =
      (ls ++ .close :: after).foldlM step (Partial.start.within f) := rfl
  rw [hopen, List.foldlM_append, foldlM_within f h, ← hclosed]
  change (Lexeme.close :: after).foldlM step (s.within f) = _
  rw [List.foldlM_cons, hclose]
  rfl

/-! ### Patterns that are read to their end -/

/-- A text is read to its end as a pattern, with no group left open. -/
def ReadsWhole (text : List Char) (s : Partial) : Prop :=
  ∃ ls, Lexes text ls ∧ ls.foldlM step .start = .ok s ∧ s.outer = []

/-- The pattern that is read. -/
def Partial.read (s : Partial) : Read := ⟨s.frame.pattern.value, s.groups⟩

/-- A pattern within the limits. -/
def limited (p : Nested Pattern) (groups : Nat) : Except PatternError Read :=
  if p.depth > maxDepth then .error .tooDeep
  else if p.value.fits then .ok ⟨p.value, groups⟩
  else .error .tooLarge

variable {text : List Char} {read : Read}

theorem limited_eq_ok {q : Nested Pattern} {groups : Nat} (h : limited q groups = .ok read) :
    read = ⟨q.value, groups⟩ := by
  unfold limited at h
  split at h
  · cases h
  · split at h
    · exact (Except.ok.inj h).symm
    · cases h

theorem ofLexemes_of_foldlM (h : ls.foldlM step .start = .ok s) (houter : s.outer = []) :
    ofLexemes ls = limited s.frame.pattern s.groups := by
  rw [ofLexemes, h]
  dsimp only [bind, Except.bind]
  rw [houter]
  rfl

theorem exists_readsWhole (h : parse text = .ok read) : ∃ s, ReadsWhole text s ∧ read = s.read := by
  obtain ⟨ls, hls, hread⟩ := Except.bind_eq_ok h
  obtain ⟨s, hs, houter, rfl⟩ := ofLexemes_eq_ok hread
  exact ⟨s, ⟨ls, lexes_of_lexemes hls, hs, houter⟩, rfl⟩

theorem ReadsWhole.isNormal (h : ReadsWhole text s) : s.read.pattern.IsNormal := by
  obtain ⟨ls, -, hs, -⟩ := h
  exact (isNormal_of_foldlM isNormal_start hs _ List.mem_cons_self).pattern

/-! ### The patterns of rules -/

/-- A sequence that begins with a condition is its own only branch. -/
theorem choice_sequence_look {ps : List Pattern} (hps : ∀ q ∈ ps, q.IsNormal) (l : Look) :
    choice [sequence (.look l :: ps)] = sequence (.look l :: ps) := by
  have hbranches : (sequence (.look l :: ps)).branches = [sequence (.look l :: ps)] := by
    rw [sequence_cons rfl (fun _ => rfl) hps]
    split <;> rfl
  rw [choice, List.flatMap_singleton, hbranches]

theorem isNormal_all_cons {p : Pattern} (h : p.IsNormal) :
    ∀ q ∈ [one .all, p], q.IsNormal := by
  rintro q (_ | ⟨_, _ | ⟨_, ⟨⟩⟩⟩)
  · trivial
  · exact h

/-- A text with a pattern in a group is read as the frame that the lexemes around it make. -/
theorem parse_around (hs : ls.foldlM step .start = .ok s) (houter : s.outer = [])
    {before after : List Lexeme} {first : Frame} (last : Frame → Frame)
    (htext : Lexes text (before ++ .openPlain id :: (ls ++ .close :: after)))
    (hbefore : before.foldlM step .start = .ok ⟨first, [], {}, 0, []⟩)
    (hafter : ∀ r : Partial, after.foldlM step r = .ok { r with frame := last r.frame }) :
    parse text = limited
      (last (first.add ⟨s.frame.pattern.value, s.frame.pattern.depth + 1⟩)).pattern s.groups := by
  have hfold : (before ++ .openPlain id :: (ls ++ .close :: after)).foldlM step .start =
      .ok ⟨last (first.add ⟨s.frame.pattern.value, s.frame.pattern.depth + 1⟩), [],
        s.frame.outerFlags, s.groups, s.names⟩ := by
    rw [List.foldlM_append, hbefore]
    exact (foldlM_group hs houter first after).trans (hafter _)
  rw [parse, htext.lexemes, ← ofLexemes_of_foldlM hfold rfl]
  rfl

variable {pattern : String}

/-- The pattern of a rule for the start of a text. -/
theorem parse_startText_eq (h : ReadsWhole pattern.toList s) :
    parse (CompiledRule.startText pattern) =
      limited ⟨sequence [.look .textStart, s.read.pattern], s.frame.pattern.depth + 2⟩ s.groups := by
  have hnormal := h.isNormal
  obtain ⟨ls, hls, hs, houter⟩ := h
  have htext : Lexes (CompiledRule.startText pattern)
      ([.look .textStart] ++ .openPlain id :: (ls ++ [.close])) := by
    rw [startText_eq]
    exact .cons rfl (Nat.le_succ _) (.cons rfl (by simp) (hls.append_close .nil))
  rw [parse_around hs houter id htext rfl fun _ => rfl]
  refine congrArg (limited · s.groups) ?_
  have hvalue := choice_sequence_look (List.forall_mem_singleton.2 hnormal) .textStart
  have hdepth : Nested.joinedDepth [Nested.joinedDepth [s.frame.pattern.depth + 1, 0]] =
      s.frame.pattern.depth + 2 := by
    simp [Nested.joinedDepth]
  exact congrArg₂ Nested.mk hvalue hdepth

/-- The pattern of a rule for a text that begins one character before the cursor. -/
theorem parse_contextText_eq (h : ReadsWhole pattern.toList s) :
    parse (CompiledRule.contextText pattern) =
      limited ⟨sequence [.look .textStart, .one .all, s.read.pattern], s.frame.pattern.depth + 2⟩
        s.groups := by
  have hnormal := h.isNormal
  obtain ⟨ls, hls, hs, houter⟩ := h
  have htext : Lexes (CompiledRule.contextText pattern)
      ([.look .textStart, .openPlain dotAll, .dot, .close] ++
        .openPlain id :: (ls ++ [.close])) := by
    rw [contextText_eq]
    refine .cons rfl (Nat.le_succ _) (.cons (lexeme_openDotAll _) (by simp) ?_)
    exact .cons rfl (Nat.le_refl _)
      (.cons rfl (Nat.le_refl _) (.cons rfl (by simp) (hls.append_close .nil)))
  rw [parse_around hs houter id htext rfl fun _ => rfl]
  refine congrArg (limited · s.groups) ?_
  have hvalue := choice_sequence_look (isNormal_all_cons hnormal) .textStart
  have hdepth : Nested.joinedDepth [Nested.joinedDepth [s.frame.pattern.depth + 1, 1, 0]] =
      s.frame.pattern.depth + 2 := by
    simp [Nested.joinedDepth]
  exact congrArg₂ Nested.mk hvalue hdepth

/-- The pattern of a rule for a whole text. -/
theorem parse_wholeText_eq (h : ReadsWhole pattern.toList s) :
    parse (CompiledRule.wholeText pattern) =
      limited ⟨sequence [.look .textStart, s.read.pattern, .look .textEnd],
        s.frame.pattern.depth + 2⟩ s.groups := by
  have hnormal := h.isNormal
  obtain ⟨ls, hls, hs, houter⟩ := h
  have hend : Lexes ['\\', 'z'] [.look .textEnd] := .cons rfl (Nat.le_succ _) .nil
  have htext : Lexes (CompiledRule.wholeText pattern)
      ([.look .textStart] ++ .openPlain id :: (ls ++ [.close, .look .textEnd])) := by
    rw [wholeText_eq]
    exact .cons rfl (Nat.le_succ _) (.cons rfl (by simp) (hls.append_close hend))
  rw [parse_around hs houter (·.add (.leaf (.look .textEnd))) htext rfl fun _ => rfl]
  refine congrArg (limited · s.groups) ?_
  have hparts : ∀ q ∈ [s.read.pattern, .look .textEnd], q.IsNormal :=
    List.forall_mem_cons.2 ⟨hnormal, List.forall_mem_singleton.2 trivial⟩
  have hvalue := choice_sequence_look hparts .textStart
  have hdepth : Nested.joinedDepth [Nested.joinedDepth [0, s.frame.pattern.depth + 1, 0]] =
      s.frame.pattern.depth + 2 := by
    simp [Nested.joinedDepth]
  exact congrArg₂ Nested.mk hvalue hdepth

/-- The pattern of a rule for the start of a text asks for the start and goes on with the
pattern. -/
theorem sequence_textStart {p : Pattern} (h : p.IsNormal) :
    sequence [.look .textStart, p] =
      if p = .empty then .look .textStart else .seq (.look .textStart) p := by
  rw [sequence_cons rfl (fun _ => rfl) (List.forall_mem_singleton.2 h), sequence_singleton h]

theorem sequence_textStart_all {p : Pattern} (h : p.IsNormal) :
    sequence [.look .textStart, .one .all, p] = .seq (.look .textStart)
      (if p = .empty then .one .all else .seq (.one .all) p) := by
  have hps := List.forall_mem_singleton.2 h
  have hrest : sequence [.one .all, p] = if p = .empty then .one .all else .seq (.one .all) p := by
    rw [sequence_cons rfl (fun _ => rfl) hps, sequence_singleton h]
  rw [sequence_cons rfl (fun _ => rfl) (isNormal_all_cons h), hrest, if_neg]
  split <;> simp

end Pattern

end Highlighting
