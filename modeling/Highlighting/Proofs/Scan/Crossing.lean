import Highlighting.Proofs.Scan.Order
import Highlighting.Proofs.Scan.Related

/-!
# Crossing a text

Whatever a scan does, the tokens that it has found stay found, and once it is truncated it stays so
(`Progress.Grows`).  A grammar crosses a text in a state when its rules lead from one place to
another without changing the state stack (`Grammar.Crosses`); a scan that comes to the first place
with that state on top then comes to the second one, unless the token limit stops it
(`Scanner.scanFrom_crosses`).
-/

namespace Highlighting

/-- Later progress has the tokens of the earlier, and is truncated if that is. -/
structure Progress.Grows (p p' : Progress) : Prop where
  tokens : ∀ t ∈ p.tokens, t ∈ p'.tokens
  truncated : p.truncated = true → p'.truncated = true

namespace Progress

variable {p p' p'' : Progress}

theorem Grows.refl (p : Progress) : p.Grows p := ⟨fun _ ht => ht, id⟩

theorem Grows.trans (h : p.Grows p') (h' : p'.Grows p'') : p.Grows p'' :=
  ⟨fun t ht => h'.tokens t (h.tokens t ht), fun ht => h'.truncated (h.truncated ht)⟩

theorem grows_of_eq (htokens : p'.tokens = p.tokens) (ht : p'.truncated = p.truncated) :
    p.Grows p' :=
  ⟨fun _ h => htokens ▸ h, fun h => ht.trans h⟩

theorem grows_push (p : Progress) (category : Category) (start stop : Nat) :
    p.Grows (p.push category start stop) := by
  unfold push
  split
  · exact ⟨fun t ht => Array.mem_push_of_mem _ ht, id⟩
  · exact .refl p

theorem push_truncated (p : Progress) (category : Category) (start stop : Nat) :
    (p.push category start stop).truncated = p.truncated := by
  unfold push
  split <;> rfl

end Progress

namespace Scanner

variable {s : Scanner} {rescan : Rescan} {c : Cursor} {p : Progress}

theorem truncated_follow (s : Scanner) (t : Transition Nat) (stack : List Nat) (p : Progress) :
    (s.follow t stack p).2.truncated = p.truncated := by
  cases t with
  | stay | pop => rfl
  | push state =>
    unfold follow
    dsimp only
    split
    · split <;> rfl
    · rfl

theorem tokens_unmatched (s : Scanner) (state : Nat) (c : Cursor) (ch : Char) (p : Progress) :
    (s.unmatched state c ch p).tokens =
      (p.push .text c.offset (c.offset + ch.utf8Size)).tokens := by
  unfold unmatched Progress.push
  dsimp only
  split <;> split <;> rfl

theorem truncated_unmatched (s : Scanner) (state : Nat) (c : Cursor) (ch : Char) (p : Progress) :
    (s.unmatched state c ch p).truncated = p.truncated := by
  unfold unmatched
  dsimp only
  rw [Progress.push_truncated]
  split <;> rfl

theorem tokens_truncate (s : Scanner) (c : Cursor) (p : Progress) :
    (s.truncate c p).tokens =
      (p.push .text c.offset (c.offset + byteSize c.ahead)).tokens := by
  unfold truncate Progress.push
  dsimp only
  split <;> split <;> rfl

theorem truncated_truncate (s : Scanner) (c : Cursor) (p : Progress) :
    (s.truncate c p).truncated = true := by
  unfold truncate
  dsimp only
  rw [Progress.push_truncated]
  split
  · next h => exact h
  · rfl

theorem unmatched_grows (s : Scanner) (state : Nat) (c : Cursor) (ch : Char) (p : Progress) :
    p.Grows (s.unmatched state c ch p) := by
  have h := p.grows_push .text c.offset (c.offset + ch.utf8Size)
  refine ⟨?_, fun ht => (truncated_unmatched s state c ch p).trans ht⟩
  rw [tokens_unmatched]
  exact h.tokens

theorem truncate_grows (s : Scanner) (c : Cursor) (p : Progress) : p.Grows (s.truncate c p) := by
  have h := p.grows_push .text c.offset (c.offset + byteSize c.ahead)
  refine ⟨?_, fun _ => truncated_truncate s c p⟩
  rw [tokens_truncate]
  exact h.tokens

/-- In a scan progress grows. -/
theorem obeys_grows (s : Scanner) : s.Obeys Progress.Grows fun _ _ => True where
  refl := .refl
  trans := .trans
  push := Progress.grows_push
  unmatched := s.unmatched_grows
  truncate := s.truncate_grows
  start _ _ := trivial
  later _ _ := trivial
  follow _ _ _ _ :=
    ⟨Progress.grows_of_eq (tokens_follow _ _ _ _) (truncated_follow _ _ _ _), trivial⟩

end Scanner

/-! ### Crossing -/

/-- In a state the rules of a grammar lead from one place to another, and all of them leave the
state stack as it is. -/
inductive Grammar.Crosses (g : Grammar) (state : Nat) : Cursor → Cursor → Prop where
  | refl (c : Cursor) : Crosses g state c c
  | matched {c e r m} (hm : g.firstMatch? state c = some (r, m)) (hstay : r.transition = .stay)
      (h : Crosses g state m.stop e) : Crosses g state c e
  | unmatched {c e ch rest} (hm : g.firstMatch? state c = none) (hahead : c.ahead = ch :: rest)
      (h : Crosses g state (c.past ch rest) e) : Crosses g state c e

theorem RuleMatch.Inside.exists_ahead {c : Cursor} {m : RuleMatch} (h : m.Inside c) :
    ∃ ch rest, c.ahead = ch :: rest := by
  obtain ⟨u, hu⟩ := h.reaches
  obtain ⟨x, v, rfl⟩ := List.exists_cons_of_ne_nil (hu.ne_nil h.advances)
  obtain ⟨rest, hahead, -⟩ := hu
  exact ⟨x, rest, hahead⟩

theorem RuleMatch.Inside.length_lt {c : Cursor} {m : RuleMatch} (h : m.Inside c) :
    m.stop.ahead.length < c.ahead.length := by
  obtain ⟨u, hu⟩ := h.reaches
  exact hu.length_lt (hu.ne_nil h.advances)

namespace Scanner

variable {s : Scanner} {rescan : Rescan} {c e : Cursor} {top : Nat}

/-- A scan crosses what its grammar crosses, unless the token limit stops it. -/
theorem scanFrom_crosses (h : s.grammar.Crosses top c e)
    (hrescan : rescan.Obeys Progress.Grows) (hc : c.Placed)
    {bound : List Char} (hbound : c.ahead.length ≤ bound.length) (below : List Nat)
    (p : Progress) : ∃ bound' p', e.ahead.length ≤ bound'.length ∧ p.Grows p' ∧
      (s.scanFrom rescan bound c (top :: below) p =
          s.scanFrom rescan bound' e (top :: below) p' ∨
        (s.scanFrom rescan bound c (top :: below) p).truncated = true) := by
  induction h generalizing bound p with
  | refl c => exact ⟨bound, p, hbound, .refl p, .inl rfl⟩
  | @matched c e r m hm hstay h ih =>
    have hin := Grammar.firstMatch?_inside hc hm
    obtain ⟨ch, rest, hahead⟩ := hin.exists_ahead
    obtain ⟨u, hu⟩ := hin.reaches
    have hlen := hin.length_lt
    cases bound with
    | nil => simp [hahead] at hbound
    | cons b bound =>
      simp only [List.length_cons] at hbound
      have hstep : s.step rescan c ch rest (top :: below) p =
          (m.stop, top :: below, emit rescan c r m p) := step_of_stay hm hstay ch rest p
      have hle : m.stop.ahead.length ≤ bound.length := by omega
      obtain ⟨bound', p', hlen', hgrows, heq⟩ := ih (hu.placed hc) hle (emit rescan c r m p)
      refine ⟨bound', p', hlen', (s.obeys_grows.emit hrescan c r m p).trans hgrows, ?_⟩
      rw [scanFrom_of_cons hahead, hstep]
      split
      · exact .inr (truncated_truncate s c p)
      · exact heq
  | @unmatched c e ch rest hm hahead h ih =>
    cases bound with
    | nil => simp [hahead] at hbound
    | cons b bound =>
      rw [hahead] at hbound
      simp only [List.length_cons] at hbound
      have hstep : s.step rescan c ch rest (top :: below) p =
          (c.past ch rest, top :: below, s.unmatched top c ch p) := step_of_none hm ch rest p
      have hle : (c.past ch rest).ahead.length ≤ bound.length := by
        simp only [Cursor.ahead_past]
        omega
      obtain ⟨bound', p', hlen', hgrows, heq⟩ := ih ((Cursor.reaches_past hahead).placed hc)
        hle (s.unmatched top c ch p)
      refine ⟨bound', p', hlen', (unmatched_grows s top c ch p).trans hgrows, ?_⟩
      rw [scanFrom_of_cons hahead, hstep]
      split
      · exact .inr (truncated_truncate s c p)
      · exact heq

end Scanner

end Highlighting
