import Highlighting.Pattern.Reader
import Highlighting.Proofs.Grammar.Expansion
import Highlighting.Proofs.Pattern.Marks

/-!
# The normal form of patterns

`Pattern.IsNormal` says that a pattern is in normal form: its literals have characters, its
sequences lean to the right, none of their parts is empty, and no two literals are side by side.
What builds patterns keeps the normal form, and so every pattern that is read has it
(`isNormal_of_parse`).  A pattern in normal form is the sequence of its parts (`ofParts_parts`),
so that a condition in front of it is simply a first part (`sequence_cons`).
-/

namespace Highlighting

namespace Pattern

/-- A pattern is in normal form. -/
def IsNormal : Pattern → Prop
  | .literal cs => cs ≠ []
  | .seq p q =>
    p.IsNormal ∧ q.IsNormal ∧ p.parts = [p] ∧ consPart p q.parts = p :: q.parts ∧ q ≠ .empty
  | .alt p q => p.IsNormal ∧ q.IsNormal
  | .repeated p _ _ _ | .group _ p => p.IsNormal
  | .empty | .one _ | .look _ => True

/-- Parts of a sequence in normal form. -/
def NormalParts : List Pattern → Prop
  | [] => True
  | p :: ps => p.IsNormal ∧ p.parts = [p] ∧ consPart p ps = p :: ps ∧ NormalParts ps

variable {p q : Pattern} {ps qs : List Pattern}

theorem IsNormal.spelled (h : p.IsNormal) : p.Spelled := by
  induction p with
  | empty | one _ | look _ => trivial
  | literal cs => exact h
  | seq p q ihp ihq => exact ⟨ihp h.1, ihq h.2.1⟩
  | alt p q ihp ihq => exact ⟨ihp h.1, ihq h.2⟩
  | repeated p _ _ _ ih | group _ p ih => exact ih h

/-! ### Parts -/

theorem parts_ne_nil (h : p ≠ .empty) : p.parts ≠ [] := by
  cases p <;> simp_all [parts]

theorem consPart_nil (p : Pattern) : consPart p [] = [p] := by
  cases p <;> rfl

theorem IsNormal.parts (h : p.IsNormal) : NormalParts p.parts := by
  induction p with
  | empty => trivial
  | seq p q _ ihq => exact ⟨h.1, h.2.2.1, h.2.2.2.1, ihq h.2.1⟩
  | literal _ | one _ | look _ | alt _ _ | repeated _ _ _ _ | group _ _ =>
    exact ⟨h, rfl, consPart_nil _, trivial⟩

theorem NormalParts.foldr_consPart (h : NormalParts ps) : ps.foldr consPart [] = ps := by
  induction ps with
  | nil => rfl
  | cons p ps ih => rw [List.foldr_cons, ih h.2.2.2, h.2.2.1]

/-- A pattern in normal form is the sequence of its parts. -/
theorem IsNormal.ofParts_parts (h : p.IsNormal) : ofParts p.parts = p := by
  induction p with
  | seq p q _ ihq =>
    obtain ⟨x, xs, hparts⟩ := List.exists_cons_of_ne_nil (parts_ne_nil h.2.2.2.2)
    have hq := ihq h.2.1
    rw [hparts] at hq
    rw [Pattern.parts, hparts, ofParts, hq]
  | empty | literal _ | one _ | look _ | alt _ _ | repeated _ _ _ _ | group _ _ => rfl

theorem NormalParts.ofParts (h : NormalParts ps) :
    (ofParts ps).IsNormal ∧ (ofParts ps).parts = ps := by
  induction ps with
  | nil => exact ⟨trivial, rfl⟩
  | cons p ps ih =>
    obtain ⟨hp, hparts, hcons, hps⟩ := h
    cases ps with
    | nil => exact ⟨hp, hparts⟩
    | cons q ps =>
      obtain ⟨hnormal, hq⟩ := ih hps
      refine ⟨⟨hp, hnormal, hparts, by rwa [hq], fun hempty => ?_⟩, congrArg (p :: ·) hq⟩
      rw [hempty] at hq
      cases hq

theorem NormalParts.drop (h : NormalParts ps) (n : Nat) : NormalParts (ps.drop n) := by
  induction ps generalizing n with
  | nil => rwa [List.drop_nil]
  | cons p ps ih =>
    cases n with
    | zero => exact h
    | succ n => exact ih h.2.2.2 n

theorem NormalParts.of_mem (h : NormalParts ps) (hp : p ∈ ps) : p.IsNormal ∧ p.parts = [p] := by
  induction ps with
  | nil => cases hp
  | cons q ps ih =>
    rcases List.mem_cons.1 hp with rfl | hp
    · exact ⟨h.1, h.2.1⟩
    · exact ih h.2.2.2 hp

theorem consPart_literal {a b : List Char} (h : consPart (.literal b) ps = .literal b :: ps) :
    consPart (.literal a) ps = .literal a :: ps := by
  cases ps with
  | nil => rfl
  | cons q ps =>
    cases q with
    | literal d => simp [consPart] at h
    | _ => rfl

/-- A part in front of others is joined to them. -/
theorem NormalParts.consPart (h : NormalParts ps) (hp : p.IsNormal) (hparts : p.parts = [p]) :
    NormalParts (consPart p ps) := by
  unfold Pattern.consPart
  split
  · next a b rest =>
    obtain ⟨-, -, hcons, hrest⟩ := h
    refine ⟨?_, rfl, consPart_literal hcons, hrest⟩
    exact List.append_ne_nil_of_left_ne_nil hp b
  · next hne =>
    refine ⟨hp, hparts, ?_, h⟩
    unfold Pattern.consPart
    split
    · next a b rest => exact (hne a b rest rfl rfl).elim
    · rfl

theorem normalParts_foldr (h : ∀ p ∈ ps, p.IsNormal ∧ p.parts = [p]) :
    NormalParts (ps.foldr consPart []) := by
  induction ps with
  | nil => trivial
  | cons p ps ih =>
    obtain ⟨hp, hparts⟩ := h p List.mem_cons_self
    exact (ih fun q hq => h q (List.mem_cons_of_mem p hq)).consPart hp hparts

/-! ### Building patterns -/

theorem normalParts_flatMap (h : ∀ p ∈ ps, p.IsNormal) :
    NormalParts ((ps.flatMap parts).foldr consPart []) := by
  refine normalParts_foldr fun q hq => ?_
  obtain ⟨p, hp, hq⟩ := List.mem_flatMap.1 hq
  exact (h p hp).parts.of_mem hq

theorem isNormal_sequence (h : ∀ p ∈ ps, p.IsNormal) : (sequence ps).IsNormal :=
  (normalParts_flatMap h).ofParts.1

theorem IsNormal.of_mem_branches (h : p.IsNormal) (hq : q ∈ p.branches) : q.IsNormal := by
  induction p with
  | alt p p' _ ih =>
    rcases List.mem_cons.1 hq with rfl | hq
    · exact h.1
    · exact ih h.2 hq
  | empty | literal _ | one _ | look _ | seq _ _ | repeated _ _ _ _ | group _ _ =>
    obtain rfl := List.mem_singleton.1 hq
    exact h

theorem isNormal_ofBranches (h : ∀ p ∈ ps, p.IsNormal) : (ofBranches ps).IsNormal := by
  induction ps with
  | nil => trivial
  | cons p ps ih =>
    have hp := h p List.mem_cons_self
    have hps := ih fun q hq => h q (List.mem_cons_of_mem p hq)
    cases ps with
    | nil => exact hp
    | cons q ps => exact ⟨hp, hps⟩

theorem isNormal_ofSet (s : CharSet) : (ofSet s).IsNormal := by
  rw [ofSet]
  split
  · exact List.cons_ne_nil _ _
  · trivial

theorem isNormal_plainChoice (h : ∀ p ∈ ps, p.IsNormal) : (plainChoice ps).IsNormal := by
  unfold plainChoice
  split
  · exact h _ List.mem_cons_self
  · exact isNormal_ofSet _
  · exact isNormal_ofBranches h

theorem mem_of_mem_commonStart (h : p ∈ commonStart ps qs) : p ∈ ps := by
  induction ps generalizing qs with
  | nil => simp [commonStart] at h
  | cons x ps ih =>
    cases qs with
    | nil => simp [commonStart] at h
    | cons y qs =>
      rw [commonStart] at h
      split at h
      · rcases List.mem_cons.1 h with rfl | h
        · exact List.mem_cons_self
        · exact List.mem_cons_of_mem x (ih h)
      · cases h

/-- What sequences have in common are parts of the first one. -/
theorem mem_of_mem_sharedStart (h : p ∈ sharedStart ps) : ∃ q ∈ ps, p ∈ q.parts := by
  match ps with
  | [x] =>
    cases x with
    | seq y z => exact ⟨_, List.mem_singleton_self _, h⟩
    | _ => cases h
  | x :: x' :: xs =>
    cases x with
    | seq y z => exact ⟨_, List.mem_cons_self, mem_of_mem_commonStart h⟩
    | _ => cases h

theorem isNormal_choice (h : ∀ p ∈ ps, p.IsNormal) : (choice ps).IsNormal := by
  have hbranches : ∀ p ∈ ps.flatMap branches, p.IsNormal := by
    intro q hq
    obtain ⟨p, hp, hq⟩ := List.mem_flatMap.1 hq
    exact (h p hp).of_mem_branches hq
  unfold choice
  dsimp only
  generalize ps.flatMap branches = bs at hbranches
  split
  · exact hbranches _ List.mem_cons_self
  split
  · exact isNormal_plainChoice hbranches
  · next n _ =>
    have hrests : ∀ p ∈ bs.map fun p => ofParts (p.parts.drop (n + 1)), p.IsNormal := by
      intro q hq
      obtain ⟨p, hp, rfl⟩ := List.mem_map.1 hq
      exact ((hbranches p hp).parts.drop (n + 1)).ofParts.1
    refine isNormal_sequence (List.forall_mem_append.2 ⟨fun p hp => ?_, ?_⟩)
    · obtain ⟨q, hq, hp⟩ := mem_of_mem_sharedStart hp
      exact ((hbranches q hq).parts.of_mem hp).1
    · refine List.forall_mem_singleton.2 (isNormal_plainChoice fun q hq => ?_)
      obtain ⟨p, hp, hq⟩ := List.mem_flatMap.1 hq
      exact (hrests p hp).of_mem_branches hq

theorem IsNormal.rounds (h : p.IsNormal) (min : Nat) (max : Option Nat) (greedy : Bool) :
    (p.rounds min max greedy).IsNormal := by
  unfold Pattern.rounds
  extract_lets once least most
  split
  · trivial
  · split
    · exact h
    · exact h

theorem sequence_singleton (h : p.IsNormal) : sequence [p] = p := by
  rw [sequence, List.flatMap_singleton, h.parts.foldr_consPart, h.ofParts_parts]

/-- A part that joins with none in front of patterns in normal form. -/
theorem sequence_cons (hp : p.parts = [p]) (hcons : ∀ ps, consPart p ps = p :: ps)
    (hps : ∀ q ∈ ps, q.IsNormal) :
    sequence (p :: ps) = if sequence ps = .empty then p else .seq p (sequence ps) := by
  have hnormal : NormalParts ((ps.flatMap Pattern.parts).foldr Pattern.consPart []) :=
    normalParts_flatMap hps
  have hfirst : sequence (p :: ps) =
      Pattern.ofParts (p :: (ps.flatMap Pattern.parts).foldr Pattern.consPart []) := by
    rw [sequence, List.flatMap_cons, hp, List.singleton_append, List.foldr_cons, hcons]
  rw [hfirst, sequence]
  generalize (ps.flatMap Pattern.parts).foldr Pattern.consPart [] = rest at hnormal
  cases rest with
  | nil => rfl
  | cons q rest =>
    rw [if_neg, Pattern.ofParts]
    intro hempty
    have hparts := hnormal.ofParts.2
    rw [hempty] at hparts
    cases hparts

/-! ### Reading patterns -/

/-- What has been read of a group is in normal form. -/
structure Frame.IsNormal (f : Frame) : Prop where
  branches : ∀ b ∈ f.branches, b.value.IsNormal
  parts : ∀ p, some p ∈ f.parts → p.value.IsNormal

variable {f : Frame} {r s : Partial} {l : Lexeme}

theorem Frame.isNormal_opened (index : Option Nat) (flags : PatternFlags) :
    (Frame.opened index flags).IsNormal :=
  ⟨by simp [Frame.opened], by simp [Frame.opened]⟩

theorem Frame.IsNormal.branch (h : f.IsNormal) : f.branch.value.IsNormal := by
  refine isNormal_sequence fun p hp => ?_
  obtain ⟨part, hpart, hp⟩ := List.mem_filterMap.1 hp
  obtain ⟨q, rfl, rfl⟩ := Option.map_eq_some_iff.1 hp
  exact h.parts q (List.mem_reverse.1 hpart)

theorem Frame.IsNormal.pattern (h : f.IsNormal) : f.pattern.value.IsNormal := by
  refine isNormal_choice fun p hp => ?_
  obtain ⟨b, hb, rfl⟩ := List.mem_map.1 hp
  rcases List.mem_cons.1 (List.mem_reverse.1 hb) with rfl | hb
  · exact h.branch
  · exact h.branches b hb

theorem Frame.IsNormal.closed (h : f.IsNormal) : f.closed.value.IsNormal := by
  rw [Frame.closed]
  dsimp only
  split
  · exact h.pattern
  · exact h.pattern

theorem Frame.IsNormal.add (h : f.IsNormal) {p : Nested Pattern} (hp : p.value.IsNormal) :
    (f.add p).IsNormal := by
  refine ⟨h.branches, fun q hq => ?_⟩
  rcases List.mem_cons.1 hq with hq | hq
  · exact Option.some.inj hq ▸ hp
  · exact h.parts q hq

/-- A group in which more has been read. -/
structure Frame.Continues (f g : Frame) : Prop where
  index : g.index = f.index
  isNormal : f.IsNormal → g.IsNormal

theorem Frame.continues_add (f : Frame) {p : Nested Pattern} (hp : p.value.IsNormal) :
    f.Continues (f.add p) :=
  ⟨rfl, fun h => h.add hp⟩

/-- What a step does: it reads on in the innermost group, opens a group, or closes the innermost
one.  The groups around it do not matter to the first two. -/
theorem step_cases (h : step r l = .ok s) :
    (r.frame.Continues s.frame ∧ s.outer = r.outer ∧
      ∀ outer, step { r with outer } l = .ok { s with outer }) ∨
    ((∃ index, s.frame = .opened index r.flags) ∧ s.outer = r.frame :: r.outer ∧
      ∀ outer, step { r with outer } l = .ok { s with outer := r.frame :: outer }) ∨
    (l = .close ∧ ∃ f outer, r.outer = f :: outer ∧
      s = ⟨f.add r.frame.closed, outer, r.frame.outerFlags, r.groups, r.names⟩) := by
  cases l with
  | set t =>
    obtain rfl := Except.ok.inj h
    exact .inl ⟨r.frame.continues_add (isNormal_ofSet _), rfl, fun _ => rfl⟩
  | dot | caret | dollar | look l =>
    obtain rfl := Except.ok.inj h
    exact .inl ⟨r.frame.continues_add trivial, rfl, fun _ => rfl⟩
  | repeated min max isLazy =>
    unfold step at h ⊢
    dsimp only at h ⊢
    split at h
    · next p parts hparts =>
      obtain rfl := Except.ok.inj h
      refine .inl ⟨⟨rfl, fun hf => ⟨hf.branches, fun q hq => ?_⟩⟩, rfl, fun _ => rfl⟩
      have hp := hf.parts p (hparts ▸ List.mem_cons_self)
      rcases List.mem_cons.1 hq with hq | hq
      · exact Option.some.inj hq ▸ hp.rounds _ _ _
      · exact hf.parts q (hparts ▸ List.mem_cons_of_mem _ hq)
    · cases h
  | bar =>
    obtain rfl := Except.ok.inj h
    refine .inl ⟨⟨rfl, fun hf => ⟨?_, by simp⟩⟩, rfl, fun _ => rfl⟩
    exact List.forall_mem_cons.2 ⟨hf.branch, hf.branches⟩
  | openGroup name =>
    unfold step at h ⊢
    dsimp only at h ⊢
    split at h
    · split at h
      · cases h
      · next hname =>
        obtain rfl := Except.ok.inj h
        exact .inr (.inl ⟨⟨_, rfl⟩, rfl, fun _ => if_neg hname⟩)
    · obtain rfl := Except.ok.inj h
      exact .inr (.inl ⟨⟨_, rfl⟩, rfl, fun _ => rfl⟩)
  | openPlain change =>
    obtain rfl := Except.ok.inj h
    exact .inr (.inl ⟨⟨_, rfl⟩, rfl, fun _ => rfl⟩)
  | flags change =>
    obtain rfl := Except.ok.inj h
    refine .inl ⟨⟨rfl, fun hf => ⟨hf.branches, fun q hq => hf.parts q ?_⟩⟩, rfl, fun _ => rfl⟩
    simpa using hq
  | close =>
    unfold step at h
    dsimp only at h
    split at h
    · cases h
    · next f outer houter => exact .inr (.inr ⟨rfl, f, outer, houter, (Except.ok.inj h).symm⟩)

/-- What has been read of a pattern is in normal form. -/
def Partial.IsNormal (r : Partial) : Prop := ∀ f ∈ r.frame :: r.outer, f.IsNormal

theorem Partial.IsNormal.step (h : r.IsNormal) (hs : step r l = .ok s) : s.IsNormal := by
  obtain ⟨hframe, houter⟩ := List.forall_mem_cons.1 h
  rw [Partial.IsNormal]
  rcases step_cases hs with ⟨hf, heq, -⟩ | ⟨⟨index, hf⟩, heq, -⟩ | ⟨-, f, outer, heq, rfl⟩
  · rw [heq]
    exact List.forall_mem_cons.2 ⟨hf.isNormal hframe, houter⟩
  · rw [heq, hf]
    exact List.forall_mem_cons.2 ⟨Frame.isNormal_opened index r.flags, h⟩
  · obtain ⟨hf, hrest⟩ := List.forall_mem_cons.1 (heq ▸ houter)
    exact List.forall_mem_cons.2 ⟨hf.add hframe.closed, hrest⟩

theorem isNormal_of_foldlM {ls : List Lexeme} (h : r.IsNormal)
    (hs : ls.foldlM Pattern.step r = .ok s) : s.IsNormal := by
  induction ls generalizing r with
  | nil => exact Except.ok.inj hs ▸ h
  | cons l ls ih =>
    rw [List.foldlM_cons] at hs
    obtain ⟨r', hr', hs⟩ := Except.bind_eq_ok hs
    exact ih (h.step hr') hs

theorem isNormal_start : Partial.start.IsNormal :=
  List.forall_mem_singleton.2 (Frame.isNormal_opened none {})

/-- A list of lexemes is read as what its steps leave of the outermost group. -/
theorem ofLexemes_eq_ok {ls : List Lexeme} {read : Read} (h : ofLexemes ls = .ok read) :
    ∃ s : Partial, ls.foldlM Pattern.step .start = .ok s ∧ s.outer = [] ∧
      read = ⟨s.frame.pattern.value, s.groups⟩ := by
  obtain ⟨s, hs, h⟩ := Except.bind_eq_ok h
  split at h
  · next houter =>
    dsimp only at h
    split at h
    · cases h
    · split at h
      · exact ⟨s, hs, houter, (Except.ok.inj h).symm⟩
      · cases h
  · cases h

end Pattern

end Highlighting
