import Mathlib.Data.List.Basic
import Highlighting.Pattern.Weight

/-!
# How much the states of a set can weigh

An operation on tallies gives up only when the limit is passed, so one that adds no more than a known
number of bytes goes through as long as there is room for them (`Adds`).  A sequence of byte ranges
adds at most one state for each range when a set is read backwards.  Read forwards, states are added
when they are finished.  What the open states will take is counted from the moment when they
are opened (`OpenState.reserve`), so that a sequence adds what it opens and no more.

So the automata of a set are bounded by the number of its sequences (`adds_setStates?`).  A single
character has few of them, and a range of characters a number that its length does not change
(`length_byteSequences_le`).
-/

namespace Highlighting

/-- An operation adds at most so many bytes to a weight, and does not give up as long as there is
room for them. -/
def Adds {α β : Type} (weigh : α → Nat) (weigh' : β → Nat) (n : Nat) (f : α → Option β) : Prop :=
  ∀ a, weigh a + n ≤ Limits.maxPatternWeight → ∃ b, f a = some b ∧ weigh' b ≤ weigh a + n

namespace Adds

variable {α β γ δ : Type} {weigh : α → Nat} {weigh' : β → Nat} {weigh'' : γ → Nat} {m n : Nat}

theorem mono {f : α → Option β} (h : Adds weigh weigh' m f) (hle : m ≤ n) :
    Adds weigh weigh' n f := by
  intro a ha
  obtain ⟨b, hb, hweight⟩ := h a (by omega)
  exact ⟨b, hb, by omega⟩

theorem bind {f : α → Option β} {g : β → Option γ} (hf : Adds weigh weigh' m f)
    (hg : Adds weigh' weigh'' n g) : Adds weigh weigh'' (m + n) fun a => (f a).bind g := by
  intro a ha
  obtain ⟨b, hb, hweight⟩ := hf a (by omega)
  obtain ⟨c, hc, hweight'⟩ := hg b (by omega)
  exact ⟨c, (congrArg (·.bind g) hb).trans hc, by omega⟩

/-- A list of operations adds what each of them adds. -/
theorem foldlM {f : α → δ → Option α} {l : List δ}
    (h : ∀ x ∈ l, Adds weigh weigh n fun a => f a x) :
    Adds weigh weigh (n * l.length) fun a => l.foldlM f a := by
  induction l with
  | nil => exact fun a _ => ⟨a, rfl, Nat.le_add_right _ _⟩
  | cons x l ih =>
    obtain ⟨hx, hl⟩ := List.forall_mem_cons.1 h
    have hlength : n + n * l.length = n * (x :: l).length := by
      rw [List.length_cons, Nat.mul_add, Nat.mul_one, Nat.add_comm]
    rw [← hlength]
    exact hx.bind (ih hl)

end Adds

namespace Tally

theorem adds_add? (states extra : Nat) :
    Adds weight weight (32 * states + extra) (add? states extra) := by
  intro t ht
  have hweight : (⟨t.states + states, t.extra + extra⟩ : Tally).weight =
      t.weight + (32 * states + extra) := by
    simp only [weight]
    omega
  refine ⟨_, ?_, Nat.le_of_eq hweight⟩
  rw [add?]
  exact if_pos (hweight ▸ ht)

end Tally

namespace SharedStates

/-- The bytes of the states. -/
def weight (s : SharedStates) : Nat := s.tally.weight

theorem adds_state? (description : List Nat) (extra : Nat) :
    Adds weight (fun p => p.2.weight) (32 + extra) fun s => s.state? description extra := by
  intro s hs
  have henter : ∃ b, state?.enter s description extra (tablePlace s.places description) = some b ∧
      b.2.weight ≤ s.weight + (32 + extra) := by
    obtain ⟨sum, hsum, hle⟩ := Tally.adds_add? 1 extra s.tally hs
    exact ⟨_, congrArg (Option.map _) hsum, hle⟩
  dsimp only [state?]
  split
  · split
    · exact ⟨_, rfl, Nat.le_add_right _ _⟩
    · exact henter
  · exact henter

end SharedStates

/-! ### Sets read backwards -/

theorem adds_backwardChain? (next : Nat) (sequence : List ByteRange) :
    Adds SharedStates.weight SharedStates.weight (32 * sequence.length)
      fun s => backwardChain? s next sequence := by
  induction sequence generalizing next with
  | nil => exact fun s _ => ⟨s, rfl, Nat.le_add_right _ _⟩
  | cons r rest ih =>
    intro s hs
    rw [List.length_cons] at hs ⊢
    obtain ⟨⟨number, s'⟩, hstate, hle⟩ := SharedStates.adds_state? [next, r.1, r.2] 0 s (by omega)
    obtain ⟨s'', hrest, hle'⟩ := ih number s' (by dsimp only at hle; omega)
    refine ⟨s'', ?_, by dsimp only at hle; omega⟩
    dsimp only [backwardChain?]
    dsimp only at hstate
    rw [hstate]
    exact hrest

theorem adds_backwardSet? {set : CharSet}
    (hlength : ∀ q ∈ set.ranges.flatMap CharSet.byteSequences, q.length ≤ 4) :
    Adds Tally.weight Tally.weight
      (64 + 160 * (set.ranges.flatMap CharSet.byteSequences).length) (backwardSet? set) := by
  intro t ht
  unfold backwardSet?
  generalize set.ranges.flatMap CharSet.byteSequences = sequences at *
  obtain ⟨start, hstart, hle⟩ := Tally.adds_add? 2 0 t (by omega)
  have hfold : Adds SharedStates.weight SharedStates.weight (128 * sequences.length)
      fun s => sequences.foldlM (fun s q => backwardChain? s (t.states + 1) q) s :=
    .foldlM fun q hq => (adds_backwardChain? _ q).mono (by have := hlength q hq; omega)
  obtain ⟨s, hs, hle'⟩ := hfold ⟨start, 1000, ∅⟩ (by
    show start.weight + _ ≤ _
    omega)
  replace hle' : s.tally.weight ≤ start.weight + 128 * sequences.length := hle'
  obtain ⟨sum, hsum, hle''⟩ := Tally.adds_add? 0 (4 * sequences.length) s.tally (by omega)
  refine ⟨sum, ?_, by omega⟩
  simp only [hstart, Option.bind_eq_bind, Option.bind_some]
  dsimp only at hs
  rw [hs]
  exact hsum

/-! ### Sets read forwards -/

/-- What an open state will take when it is finished. -/
def OpenState.reserve (o : OpenState) : Nat := 32 + 8 * (o.arrows.length + o.pending.toList.length)

/-- What open states will take. -/
def reserves (opened : List OpenState) : Nat := opened.foldr (fun o n => o.reserve + n) 0

/-- The bytes of the states, the open ones included. -/
def reserved (opened : List OpenState) (s : SharedStates) : Nat := s.weight + reserves opened

theorem OpenState.reserve_reaching (o : OpenState) (target : Nat) :
    (o.reaching target).reserve = o.reserve ∧ (o.reaching target).pending = none := by
  obtain ⟨arrows, pending⟩ := o
  cases pending with
  | none => exact ⟨rfl, rfl⟩
  | some r => exact ⟨by simp [reaching, reserve], rfl⟩

/-- Finishing open states adds what was counted for them already, and the state that is then the
innermost one waits for no target. -/
theorem adds_finishBeyond? (depth target : Nat) (opened : List OpenState) (s : SharedStates)
    (h : reserved opened s ≤ Limits.maxPatternWeight) :
    ∃ opened' s', finishBeyond? depth target s opened = some (opened', s') ∧
      reserved opened' s' ≤ reserved opened s ∧ ∀ o ∈ opened'.head?, o.pending = none := by
  induction opened generalizing target s with
  | nil => exact ⟨[], s, rfl, Nat.le_refl _, by simp⟩
  | cons o outer ih =>
    obtain ⟨hreserve, hpending⟩ := o.reserve_reaching target
    have hsplit : reserved (o :: outer) s =
        s.weight + ((o.reaching target).reserve + reserves outer) := by
      rw [hreserve]
      rfl
    unfold finishBeyond?
    dsimp only
    split
    · have harrows : (o.reaching target).reserve = 32 + 8 * (o.reaching target).arrows.length := by
        rw [OpenState.reserve, hpending]
        rfl
      obtain ⟨⟨number, s'⟩, hstate, hle⟩ := SharedStates.adds_state?
        (o.reaching target).arrows.reverse.flatten (8 * (o.reaching target).arrows.length) s
        (by omega)
      dsimp only at hstate hle
      have hreserved : reserved outer s' ≤ reserved (o :: outer) s := by
        rw [hsplit, reserved]
        omega
      obtain ⟨opened', s'', hfinish, hle', hhead⟩ := ih number s' (by omega)
      rw [hstate]
      exact ⟨opened', s'', hfinish, by omega, hhead⟩
    · refine ⟨_, s, rfl, ?_, by simpa using hpending⟩
      rw [hsplit]
      exact Nat.le_refl _

theorem reserves_cons (o : OpenState) (opened : List OpenState) :
    reserves (o :: opened) = o.reserve + reserves opened := rfl

theorem reserves_opened (rest : List ByteRange) (opened : List OpenState) :
    reserves (rest.foldl (fun os r => ⟨[], some r⟩ :: os) opened) =
      40 * rest.length + reserves opened := by
  induction rest generalizing opened with
  | nil => simp
  | cons r rest ih =>
    have hone : (⟨[], some r⟩ : OpenState).reserve = 40 := rfl
    rw [List.foldl_cons, ih, reserves_cons, hone, List.length_cons]
    omega

/-- A sequence adds what it opens. -/
theorem adds_forwardSequence? (target : Nat) (sequence : List ByteRange) :
    Adds (fun p : List OpenState × SharedStates => reserved p.1 p.2)
      (fun p : List OpenState × SharedStates => reserved p.1 p.2) (40 * sequence.length)
      fun p => forwardSequence? target p.1 p.2 sequence := by
  rintro ⟨opened, s⟩ hp
  dsimp only at hp ⊢
  unfold forwardSequence?
  generalize sharedDepth sequence opened.reverse = depth
  obtain ⟨opened', s', hfinish, hle, hhead⟩ :=
    adds_finishBeyond? depth target opened s (by omega)
  simp only [hfinish, Option.bind_eq_bind, Option.bind_some]
  split
  · next o outer r rest hdrop =>
    have hlength : (r :: rest).length ≤ sequence.length :=
      hdrop ▸ (List.length_drop ▸ Nat.sub_le _ _)
    have hpending : o.pending = none := hhead o rfl
    have ho : (⟨o.arrows, some r⟩ : OpenState).reserve = o.reserve + 8 := by
      simp only [OpenState.reserve, hpending, Option.toList_some, Option.toList_none,
        List.length_singleton, List.length_nil]
      omega
    refine ⟨_, rfl, ?_⟩
    simp only [reserved, reserves_opened, reserves_cons, ho] at hle ⊢
    simp only [List.length_cons] at hlength
    omega
  · exact ⟨_, rfl, by dsimp only; omega⟩

theorem adds_forwardSet? {set : CharSet}
    (hlength : ∀ q ∈ set.ranges.flatMap CharSet.byteSequences, q.length ≤ 4) :
    Adds Tally.weight Tally.weight
      (64 + 160 * (set.ranges.flatMap CharSet.byteSequences).length) (forwardSet? set) := by
  intro t ht
  unfold forwardSet?
  generalize set.ranges.flatMap CharSet.byteSequences = sequences at *
  obtain ⟨start, hstart, hle⟩ := Tally.adds_add? 1 0 t (by omega)
  have hfold : Adds (fun p : List OpenState × SharedStates => reserved p.1 p.2)
      (fun p : List OpenState × SharedStates => reserved p.1 p.2) (160 * sequences.length)
      fun p => sequences.foldlM (fun p q => forwardSequence? t.states p.1 p.2 q) p :=
    .foldlM fun q hq => (adds_forwardSequence? _ q).mono (by have := hlength q hq; omega)
  have hbegin : reserved [⟨[], none⟩] ⟨start, 10000, ∅⟩ = start.weight + 32 := rfl
  obtain ⟨⟨opened, s⟩, hs, hle'⟩ := hfold ([⟨[], none⟩], ⟨start, 10000, ∅⟩) (by
    dsimp only
    omega)
  dsimp only at hs hle'
  obtain ⟨opened', s', hfinish, hle'', hhead⟩ :=
    adds_finishBeyond? 0 t.states opened s (by omega)
  simp only [hstart, Option.bind_eq_bind, Option.bind_some, hs, hfinish]
  cases opened' with
  | nil =>
    have hend : reserved [] s' = s'.tally.weight := rfl
    exact ⟨_, rfl, by omega⟩
  | cons o outer =>
    have hend : reserved (o :: outer) s' =
        s'.weight + (o.reserve + reserves outer) := rfl
    have hreserve : o.reserve = 32 + 8 * o.arrows.length := by
      rw [OpenState.reserve, hhead o rfl]
      rfl
    obtain ⟨⟨number, s''⟩, hstate, hle'''⟩ := SharedStates.adds_state?
      o.arrows.reverse.flatten (8 * o.arrows.length) s' (by omega)
    dsimp only at hstate hle'''
    refine ⟨s''.tally, ?_, ?_⟩
    · dsimp only
      rw [hstate]
      rfl
    · have hweight : s''.tally.weight = s''.weight := rfl
      omega

/-! ### The sequences of a set -/

namespace CharSet

variable {r p : Nat × Nat} {t : Intervals}

theorem overlaps_singleton_cons (r q : Nat × Nat) (t : Intervals) :
    overlaps [r] (q :: t) =
      (if max r.1 q.1 ≤ min r.2 q.2 then [(max r.1 q.1, min r.2 q.2)] else []) ++
        if r.2 < q.2 then [] else overlaps [r] t := by
  rw [overlaps, overlaps]
  split <;> rfl

theorem length_overlaps_singleton_le (r : Nat × Nat) (t : Intervals) :
    (overlaps [r] t).length ≤ t.length := by
  induction t with
  | nil =>
    have hnone : overlaps [r] [] = [] := by rw [overlaps]
    exact Nat.le_of_eq (congrArg List.length hnone)
  | cons q t ih =>
    have hhead : (if max r.1 q.1 ≤ min r.2 q.2 then [(max r.1 q.1, min r.2 q.2)] else []).length
        ≤ 1 := by
      split <;> simp
    have htail : (if r.2 < q.2 then [] else overlaps [r] t).length ≤ t.length := by
      split
      · exact Nat.zero_le _
      · exact ih
    rw [overlaps_singleton_cons, List.length_append, List.length_cons]
    omega

/-- The common parts with a range lie in it. -/
theorem within_of_mem_overlaps_singleton (h : p ∈ overlaps [r] t) :
    r.1 ≤ p.1 ∧ p.1 ≤ p.2 ∧ p.2 ≤ r.2 := by
  induction t with
  | nil =>
    rw [overlaps] at h
    cases h
  | cons q t ih =>
    rw [overlaps_singleton_cons, List.mem_append] at h
    rcases h with h | h
    · split at h
      · next hle =>
        obtain rfl := List.mem_singleton.1 h
        exact ⟨Nat.le_max_left _ _, hle, Nat.min_le_left _ _⟩
      · cases h
    · split at h
      · cases h
      · exact ih h

theorem length_cutAtBlocks_le (size : Nat) (r : Nat × Nat) : (cutAtBlocks size r).length ≤ 3 := by
  unfold cutAtBlocks
  dsimp only
  split
  · simp
  · split <;> split <;> simp

theorem cutAtBlocks_of_eq (size : Nat) {r : Nat × Nat} (h : r.1 = r.2) :
    cutAtBlocks size r = [r] := by
  unfold cutAtBlocks
  dsimp only
  rw [if_pos (by rw [h])]

theorem length_bytesOf_le (n : Nat) : (bytesOf n).length ≤ 4 := by
  rw [bytesOf, List.length_map, String.length_utf8EncodeChar]
  exact Char.utf8Size_le_four _

theorem length_flatMap_le {α β : Type} {f : α → List β} {l : List α} {n : Nat}
    (h : ∀ a ∈ l, (f a).length ≤ n) : (l.flatMap f).length ≤ n * l.length := by
  induction l with
  | nil => exact Nat.le_refl _
  | cons a l ih =>
    obtain ⟨ha, hl⟩ := List.forall_mem_cons.1 h
    have := ih hl
    rw [List.flatMap_cons, List.length_append, List.length_cons, Nat.mul_add]
    omega

/-- Each sequence of a range has at most four byte ranges. -/
theorem length_le_of_mem_byteSequences {q : List ByteRange} (h : q ∈ byteSequences r) :
    q.length ≤ 4 := by
  obtain ⟨piece, -, hq⟩ := List.mem_flatMap.1 h
  split at hq
  · rw [List.mem_singleton.1 hq, List.length_singleton]
    decide
  · obtain ⟨p, -, rfl⟩ := List.mem_map.1 hq
    rw [List.length_zip]
    exact Nat.le_trans (Nat.min_le_left _ _) (length_bytesOf_le _)

/-- A single character has at most five sequences, and any range at most 135. -/
theorem length_byteSequences_le (r : Nat × Nat) :
    (byteSequences r).length ≤ if r.1 = r.2 then 5 else 135 := by
  have hpieces := length_overlaps_singleton_le r byteLengths
  have hfive : byteLengths.length = 5 := rfl
  have hcut (p : Nat × Nat) : ((cutAtBlocks 64 p).flatMap fun p =>
      (cutAtBlocks 4096 p).flatMap (cutAtBlocks 262144)).length ≤ 27 := by
    have h64 := length_cutAtBlocks_le 64 p
    have h4096 (p : Nat × Nat) : ((cutAtBlocks 4096 p).flatMap (cutAtBlocks 262144)).length ≤ 9 := by
      have := length_cutAtBlocks_le 4096 p
      have := length_flatMap_le fun q (_ : q ∈ cutAtBlocks 4096 p) => length_cutAtBlocks_le 262144 q
      omega
    have := length_flatMap_le fun q (_ : q ∈ cutAtBlocks 64 p) => h4096 q
    omega
  split
  · next hsingle =>
    -- a piece of a single character is the character, and no block cuts it
    refine Nat.le_trans (length_flatMap_le fun p hp => ?_) (by omega : 1 * _ ≤ 5)
    obtain ⟨hlo, hle, hhi⟩ := within_of_mem_overlaps_singleton hp
    have hp : p.1 = p.2 := by omega
    split
    · exact Nat.le_refl _
    · rw [List.length_map, cutAtBlocks_of_eq 64 hp, List.flatMap_singleton,
        cutAtBlocks_of_eq 4096 hp, List.flatMap_singleton, cutAtBlocks_of_eq 262144 hp]
      exact Nat.le_refl _
  · refine Nat.le_trans (length_flatMap_le fun p _ => ?_) (by omega : 27 * _ ≤ 135)
    split
    · exact Nat.le_trans (Nat.le_refl 1) (by decide)
    · rw [List.length_map]
      exact hcut p

end CharSet

/-- Both automata of a set are bounded by the number of its sequences. -/
theorem adds_setStates? (d : Pattern.Direction) (s : CharSet) :
    Adds Tally.weight Tally.weight (64 + 8 * s.ranges.length +
      160 * (s.ranges.flatMap CharSet.byteSequences).length) (Pattern.setStates? d s) := by
  have hlength : ∀ q ∈ s.ranges.flatMap CharSet.byteSequences, q.length ≤ 4 := fun q hq => by
    obtain ⟨r, -, hq⟩ := List.mem_flatMap.1 hq
    exact CharSet.length_le_of_mem_byteSequences hq
  unfold Pattern.setStates?
  split
  · exact (Tally.adds_add? 2 _).mono (by omega)
  · cases d
    · exact (adds_forwardSet? hlength).mono (by omega)
    · exact (adds_backwardSet? hlength).mono (by omega)

end Highlighting
