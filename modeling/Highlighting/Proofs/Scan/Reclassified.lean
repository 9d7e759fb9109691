import Highlighting.Proofs.Scan.Crossing

/-!
# Grammars that reclassify words

A grammar reclassifies words of another when at each place either both take the same match, or both
make one token of one of the words, or the first takes a match that *shadows* what the other crosses
(`Grammar.Reclassifies`).  A token that a scan with the first grammar finds is found by a scan with
the second, unless it is one of the words or lies in the extent of a shadowing match
(`Scanner.run_kept`).

The scans go in step but for the shadowing matches: while one scan takes such a match the other
crosses its text with tokens of its own.  So the numbers of tokens may differ from then on, and the
token limit may stop one scan earlier than the other.
-/

namespace Highlighting

/-- One token is made of a match, and the state stack stays as it is. -/
structure CompiledRule.IsSingle (r : CompiledRule) : Prop where
  wantsGroups : r.action.wantsGroups = false
  transition : r.transition = .stay

namespace Grammar

variable (g g' : Grammar) (words : List String) (shadows : Cursor → CompiledRule → Bool)

/-- In a state at a place two grammars take the same match, or make one token each of a word. -/
inductive InStep (state : Nat) (c : Cursor) : Prop where
  | same (h : g'.firstMatch? state c = g.firstMatch? state c)
  | word {r r' d w} (h : g.firstMatch? state c = some (r, ⟨d, []⟩))
      (h' : g'.firstMatch? state c = some (r', ⟨d, []⟩)) (hr : r.IsSingle) (hr' : r'.IsSingle)
      (hd : c.Reads w d) (hw : String.ofList w ∈ words)

/-- A match of the first grammar shadows what the second crosses. -/
structure Shadows (state : Nat) (c : Cursor) (r : CompiledRule) (m : RuleMatch) : Prop where
  isRoot : state = g.root
  takes : g.firstMatch? state c = some (r, m)
  stays : r.transition = .stay
  shadows : shadows c r = true
  crosses : g'.Crosses state c m.stop

/-- A grammar differs from another at words and at what shadows them.  The root state is never
entered but at the start. -/
structure Reclassifies : Prop where
  root : g'.root = g.root
  parallel : ∀ {c : Cursor}, c.Placed → ∀ state,
    g.InStep g' words state c ∨ ∃ r m, g.Shadows g' shadows state c r m
  inner : ∀ state, ∀ r ∈ g.rules state, g.root ∉ r.transition.states ∧ g.root ∉ r.action.states

end Grammar

/-- The extents of the shadowing matches that a scan takes from a cursor on. -/
def Scanner.extentsFrom (s : Scanner) (shadows : Cursor → CompiledRule → Bool) (rescan : Rescan) :
    List Char → Cursor → List Nat → Progress → List (Nat × Nat)
  | [], _, _, _ => []
  | _ :: bound, c, stack, p =>
    match c.ahead with
    | [] => []
    | ch :: rest =>
      if p.tokens.size ≥ s.limit then []
      else
        let next := s.step rescan c ch rest stack p
        let more := extentsFrom s shadows rescan bound next.1 next.2.1 next.2.2
        match s.grammar.firstMatch? (stack.headD 0) c with
        | some (r, m) => if shadows c r then (c.offset, m.stop.offset) :: more else more
        | none => more

/-- The extents of the shadowing matches that a scan of a source takes. -/
def Scanner.extents (s : Scanner) (shadows : Cursor → CompiledRule → Bool) (source : List Char) :
    List (Nat × Nat) :=
  s.extentsFrom shadows (s.scan (Limits.maxStateDepth - 1)) source (.start source 0)
    [s.grammar.root] {}

/-- A token is a piece of a source with a text. -/
def RawToken.Spells (t : RawToken) (source w : List Char) : Prop :=
  ∃ before after, source = before ++ (w ++ after) ∧ t.start = byteSize before ∧
    t.stop = t.start + byteSize w

/-- A token is one of the words, or it lies in one of the extents. -/
def RawToken.Excused (words : List String) (extents : List (Nat × Nat)) (source : List Char)
    (t : RawToken) : Prop :=
  (∃ w, t.Spells source w ∧ String.ofList w ∈ words) ∨
    ∃ x ∈ extents, x.1 ≤ t.start ∧ t.stop ≤ x.2

/-- The tokens of a scan are found by another or excused.  Either both have found the same number of
tokens, or the relation is loose, and a scan that is truncated counts for nothing. -/
def Progress.Kept (excused : RawToken → Prop) (loose : Prop) (p p' : Progress) : Prop :=
  (loose ∧ (p.truncated = true ∨ p'.truncated = true)) ∨
    ((∀ t ∈ p.tokens, excused t ∨ t ∈ p'.tokens) ∧ (loose ∨ p.tokens.size = p'.tokens.size))

namespace Progress

variable {excused : RawToken → Prop} {loose : Prop} {p p' q q' : Progress}

theorem Kept.congr (h : Kept excused loose p p') (hq : q.tokens = p.tokens)
    (hq' : q'.tokens = p'.tokens) (ht : q.truncated = p.truncated)
    (ht' : q'.truncated = p'.truncated) : Kept excused loose q q' := by
  unfold Kept at h ⊢
  rwa [hq, hq', ht, ht']

/-- A loose relation is kept when a scan is truncated and both go on. -/
theorem kept_of_truncated (hloose : loose) (hgrows : p.Grows q) (hgrows' : p'.Grows q')
    (h : p.truncated = true ∨ p'.truncated = true) : Kept excused loose q q' :=
  .inl ⟨hloose, h.imp hgrows.truncated hgrows'.truncated⟩

/-- Both scans add a token of the same extent, and the categories may differ if it is excused. -/
theorem Kept.push_both (h : Kept excused loose p p') {category category' : Category}
    {start stop : Nat} (hsame : category = category' ∨ excused ⟨category, start, stop⟩) :
    Kept excused loose (p.push category start stop) (p'.push category' start stop) := by
  rcases h with ⟨hloose, ht⟩ | ⟨htokens, hsize⟩
  · exact kept_of_truncated hloose (grows_push _ _ _ _) (grows_push _ _ _ _) ht
  · right
    unfold push
    split
    · constructor
      · intro t ht
        simp only [Array.mem_push] at ht ⊢
        rcases ht with ht | rfl
        · exact (htokens t ht).imp_right .inl
        · rcases hsame with rfl | hexcused
          · exact .inr (.inr rfl)
          · exact .inl hexcused
      · simp only [Array.size_push]
        exact hsize.imp_right (congrArg (· + 1))
    · exact ⟨htokens, hsize⟩

theorem Kept.push : KeptByPush (Kept excused loose) := by
  intro p p' category start stop h
  exact h.push_both (.inl rfl)

end Progress

/-! ### Texts of a source -/

/-- What a cursor has ahead is part of a source, and its offset says where. -/
def Cursor.LiesIn (c : Cursor) (source : List Char) : Prop :=
  ∃ before after, source = before ++ (c.ahead ++ after) ∧ c.offset = byteSize before

namespace Cursor

variable {c d x : Cursor} {source u v w : List Char}

theorem liesIn_start (source : List Char) : (start source 0).LiesIn source :=
  ⟨[], [], (List.append_nil source).symm, rfl⟩

theorem LiesIn.reads (h : c.LiesIn source) (hd : c.Reads u d) : d.LiesIn source := by
  obtain ⟨before, after, rfl, hoffset⟩ := h
  refine ⟨before ++ u, after, ?_, ?_⟩
  · rw [hd.ahead]
    simp
  · rw [hd.offset, hoffset, byteSize_append]

theorem LiesIn.spells (h : c.LiesIn source) (hd : c.Reads u d) (category : Category) :
    RawToken.Spells ⟨category, c.offset, d.offset⟩ source u := by
  obtain ⟨before, after, rfl, hoffset⟩ := h
  refine ⟨before, d.ahead ++ after, ?_, hoffset, hd.offset⟩
  rw [hd.ahead, List.append_assoc]

theorem LiesIn.start (h : c.LiesIn source) (hx : c.Reads v x) (hd : x.Reads w d) :
    (start w x.offset).LiesIn source := by
  obtain ⟨before, after, rfl, hoffset⟩ := h.reads hx
  refine ⟨before, d.ahead ++ after, ?_, hoffset⟩
  rw [hd.ahead, List.append_assoc]
  rfl

end Cursor

/-- The tokens of a tiling lie in the text. -/
theorem Tiles.bounds {n : Nat} {cs : List Char} {ts : List RawToken} (h : Tiles n cs ts)
    {t : RawToken} (ht : t ∈ ts) : n ≤ t.start ∧ t.stop ≤ n + byteSize cs := by
  induction ts generalizing n cs with
  | nil => cases ht
  | cons u us ih =>
    obtain ⟨a, b, rfl, -, hstart, hstop, hus⟩ := h
    rw [byteSize_append]
    rcases List.mem_cons.1 ht with rfl | ht
    · omega
    · have := ih hus ht
      omega

namespace Scanner

variable {s s' : Scanner} {rescan rescan' : Rescan} {c d : Cursor} {p p' : Progress}
  {words : List String} {shadows : Cursor → CompiledRule → Bool} {source : List Char}
  {excused : RawToken → Prop} {loose : Prop} {stack : List Nat}

theorem emit_single (rescan : Rescan) (c : Cursor) {r : CompiledRule} (m : RuleMatch)
    (hr : r.action.wantsGroups = false) : ∃ category, ∀ p,
      emit rescan c r m p = p.push category c.offset m.stop.offset := by
  unfold emit
  cases haction : r.action with
  | token category => exact ⟨category, fun p => rfl⟩
  | keywords table => exact ⟨_, fun p => rfl⟩
  | groups actions => simp [haction, Action.wantsGroups] at hr

theorem follow_stack (s s' : Scanner) (t : Transition Nat) (stack : List Nat) (p p' : Progress) :
    (s'.follow t stack p').1 = (s.follow t stack p).1 := by
  cases t with
  | stay | pop => rfl
  | push state =>
    unfold follow
    dsimp only
    split <;> rfl

/-- A stack stays as it is, loses its top or gets a new one. -/
theorem follow_cases (s : Scanner) (t : Transition Nat) (stack : List Nat) (p : Progress) :
    (s.follow t stack p).1 = stack ∨
      (t = .pop ∧ 1 < stack.length ∧ (s.follow t stack p).1 = stack.drop 1) ∨
      ∃ state, t = .push state ∧ stack.length < Limits.maxStateDepth ∧
        (s.follow t stack p).1 = state :: stack := by
  cases t with
  | stay => exact .inl rfl
  | pop =>
    by_cases h : 1 < stack.length
    · exact .inr (.inl ⟨rfl, h, by simp [follow, h]⟩)
    · exact .inl (by simp [follow, h])
  | push state =>
    by_cases h : Limits.maxStateDepth ≤ stack.length
    · exact .inl (by simp [follow, h])
    · exact .inr (.inr ⟨state, rfl, Nat.lt_of_not_le h, by simp [follow, h]⟩)

theorem follow_ne_nil (s : Scanner) (t : Transition Nat) (hne : stack ≠ []) (p : Progress) :
    (s.follow t stack p).1 ≠ [] := by
  rcases s.follow_cases t stack p with heq | ⟨-, hlength, heq⟩ | ⟨state, -, -, heq⟩
  · rwa [heq]
  · rw [heq]
    intro hnil
    rw [List.drop_eq_nil_iff] at hnil
    omega
  · rw [heq]
    exact List.cons_ne_nil _ _

/-- The states of the stack after a transition were on it or are those of the transition. -/
theorem follow_states (s : Scanner) (t : Transition Nat) (stack : List Nat) (p : Progress) :
    ∀ state ∈ (s.follow t stack p).1, state ∈ stack ∨ state ∈ t.states := by
  intro state hstate
  rcases s.follow_cases t stack p with heq | ⟨-, -, heq⟩ | ⟨target, rfl, -, heq⟩
  · exact .inl (heq ▸ hstate)
  · rw [heq] at hstate
    exact .inl (List.mem_of_mem_drop hstate)
  · rw [heq] at hstate
    rcases List.mem_cons.1 hstate with rfl | hstate
    · exact .inr List.mem_cons_self
    · exact .inl hstate

theorem step_ne_nil (s : Scanner) (rescan : Rescan) (c : Cursor) (ch : Char) (rest : List Char)
    (hne : stack ≠ []) (p : Progress) : (s.step rescan c ch rest stack p).2.1 ≠ [] := by
  rw [step]
  split
  · exact follow_ne_nil s _ hne _
  · exact hne

/-! ### The scans in step -/

/-- The groups that are scanned anew lie in the source, and never from the root state. -/
def IsInner (root : Nat) (source : List Char) (state offset : Nat) (text : List Char) : Prop :=
  state ≠ root ∧ (Cursor.start text offset).LiesIn source

/-- One step of both scans goes to one place, changes the stack alike and keeps the tokens. -/
theorem step_kept (hg : s.grammar.Reclassifies s'.grammar words shadows)
    (hrescan : rescan.Related (IsInner s.grammar.root source) (Progress.Kept excused loose) rescan')
    (hwords : ∀ t w, RawToken.Spells t source w → String.ofList w ∈ words → excused t)
    (hc : c.Placed) (hin : c.LiesIn source)
    (hstep : s.grammar.InStep s'.grammar words (stack.headD 0) c) (ch : Char) (rest : List Char)
    (h : Progress.Kept excused loose p p') :
    (s'.step rescan' c ch rest stack p').1 = (s.step rescan c ch rest stack p).1 ∧
      (s'.step rescan' c ch rest stack p').2.1 = (s.step rescan c ch rest stack p).2.1 ∧
      Progress.Kept excused loose (s.step rescan c ch rest stack p).2.2
        (s'.step rescan' c ch rest stack p').2.2 := by
  cases hstep with
  | same hsame =>
    rw [step, step, hsame]
    split
    · next r m hm =>
      obtain ⟨hmem, -⟩ := Grammar.mem_of_firstMatch? hm
      have htext : c.Offers (IsInner s.grammar.root source) r.action.states := by
        intro state hstate x d v w hx hd
        refine ⟨?_, hin.start hx hd⟩
        rintro rfl
        exact (hg.inner _ r hmem).2 hstate
      have hemit := emit_related Progress.Kept.push hrescan htext
        (Grammar.firstMatch?_inside hc hm) h
      exact ⟨rfl, follow_stack _ _ _ _ _ _, hemit.congr (tokens_follow _ _ _ _)
        (tokens_follow _ _ _ _) (truncated_follow _ _ _ _) (truncated_follow _ _ _ _)⟩
    · refine ⟨rfl, rfl, ?_⟩
      have hpush := Progress.Kept.push _ _ .text c.offset (c.offset + ch.utf8Size) h
      refine hpush.congr (tokens_unmatched _ _ _ _ _) (tokens_unmatched _ _ _ _ _) ?_ ?_
      · rw [truncated_unmatched, Progress.push_truncated]
      · rw [truncated_unmatched, Progress.push_truncated]
  | @word r r' d w hm hm' hr hr' hd hw =>
    obtain ⟨category, hemit⟩ := emit_single rescan c ⟨d, []⟩ hr.wantsGroups
    obtain ⟨category', hemit'⟩ := emit_single rescan' c ⟨d, []⟩ hr'.wantsGroups
    rw [step, step, hm, hm']
    dsimp only
    rw [hr.transition, hr'.transition, hemit, hemit']
    exact ⟨rfl, rfl, h.push_both (.inr (hwords _ w (hin.spells hd category) hw))⟩

/-- A scan either is inside of a group, where the root state is never on top, or it takes no
shadowing match, or its tokens are related loosely and the extents of the matches are excused. -/
def Sheltered (root : Nat) (excused : RawToken → Prop) (loose : Prop) (extents : List (Nat × Nat))
    (stack : List Nat) : Prop :=
  root ∉ stack ∨ ∀ x ∈ extents, loose ∧ ∀ t : RawToken, x.1 ≤ t.start → t.stop ≤ x.2 → excused t

theorem headD_mem (hne : stack ≠ []) : stack.headD 0 ∈ stack := by
  obtain ⟨top, below, rfl⟩ := List.exists_cons_of_ne_nil hne
  exact List.mem_cons_self

/-- The next step of a scan is sheltered like the scan. -/
theorem Sheltered.step (hg : s.grammar.Reclassifies s'.grammar words shadows) {b ch : Char}
    {bound rest : List Char} (hahead : c.ahead = ch :: rest) (hlimit : p.tokens.size < s.limit)
    (h : Sheltered s.grammar.root excused loose
      (s.extentsFrom shadows rescan (b :: bound) c stack p) stack) :
    Sheltered s.grammar.root excused loose
      (s.extentsFrom shadows rescan bound (s.step rescan c ch rest stack p).1
        (s.step rescan c ch rest stack p).2.1 (s.step rescan c ch rest stack p).2.2)
      (s.step rescan c ch rest stack p).2.1 := by
  rcases h with hroot | hextents
  · left
    rw [Scanner.step]
    split
    · next r m hm =>
      obtain ⟨hmem, -⟩ := Grammar.mem_of_firstMatch? hm
      exact fun hstate => (s.follow_states _ _ _ _ hstate).elim hroot (hg.inner _ r hmem).1
    · exact hroot
  · right
    intro x hx
    refine hextents x ?_
    rw [extentsFrom, hahead]
    dsimp only
    rw [if_neg (by omega)]
    split
    · split
      · exact List.mem_cons_of_mem _ hx
      · exact hx
    · exact hx

/-- The extent of a shadowing match is excused. -/
theorem Sheltered.shadow {b : Char} {bound : List Char} {r : CompiledRule} {m : RuleMatch}
    (hne : stack ≠ []) (hm : s.grammar.Shadows s'.grammar shadows (stack.headD 0) c r m)
    (hc : c.Placed) (hlimit : p.tokens.size < s.limit)
    (h : Sheltered s.grammar.root excused loose
      (s.extentsFrom shadows rescan (b :: bound) c stack p) stack) :
    loose ∧ ∀ t : RawToken, c.offset ≤ t.start → t.stop ≤ m.stop.offset → excused t := by
  rcases h with hnot | hextents
  · exact absurd (hm.isRoot ▸ headD_mem hne) hnot
  · refine hextents (c.offset, m.stop.offset) ?_
    obtain ⟨ch, rest, hahead⟩ := (Grammar.firstMatch?_inside hc hm.takes).exists_ahead
    rw [extentsFrom, hahead]
    dsimp only
    rw [if_neg (by omega), hm.takes]
    dsimp only
    rw [hm.shadows, if_pos rfl]
    exact List.mem_cons_self

/-- While one scan takes a shadowing match, the other crosses its text. -/
theorem shadow_kept {r : CompiledRule} {m : RuleMatch}
    (hm : s.grammar.Shadows s'.grammar shadows (stack.headD 0) c r m) (hne : stack ≠ [])
    (hcovers : rescan.Covers) (hgrows' : rescan'.Obeys Progress.Grows) (hc : c.Placed)
    (hloose : loose)
    (hextent : ∀ t : RawToken, c.offset ≤ t.start → t.stop ≤ m.stop.offset → excused t)
    {bound' : List Char} (hbound' : c.ahead.length ≤ bound'.length)
    (h : ∀ t ∈ p.tokens, excused t ∨ t ∈ p'.tokens) :
    ∃ bound p'', m.stop.ahead.length ≤ bound.length ∧
      Progress.Kept excused loose (emit rescan c r m p) p'' ∧
      (s'.scanFrom rescan' bound' c stack p' = s'.scanFrom rescan' bound m.stop stack p'' ∨
        (s'.scanFrom rescan' bound' c stack p').truncated = true) := by
  obtain ⟨top, below, rfl⟩ := List.exists_cons_of_ne_nil hne
  obtain ⟨bound, p'', hlen, hgrows, heq⟩ :=
    scanFrom_crosses hm.crosses hgrows' hc hbound' below p'
  refine ⟨bound, p'', hlen, .inr ⟨?_, .inl hloose⟩, heq⟩
  have hinside := Grammar.firstMatch?_inside hc hm.takes
  obtain ⟨u, hu⟩ := hinside.reaches
  obtain ⟨ts, hts, htile⟩ := emit_covers hcovers (r := r) hinside hu p
  intro t ht
  rw [← Array.mem_toList_iff, hts, List.mem_append, Array.mem_toList_iff] at ht
  rcases ht with ht | ht
  · exact (h t ht).imp_right (hgrows.tokens t)
  · obtain ⟨hstart, hstop⟩ := htile.bounds ht
    rw [← hu.offset] at hstop
    exact .inl (hextent t hstart hstop)

/-- Both scans leave the rest of a text unclassified. -/
theorem truncate_kept (s s' : Scanner) (c : Cursor)
    (htokens : ∀ t ∈ p.tokens, excused t ∨ t ∈ p'.tokens)
    (hsize : p.tokens.size = p'.tokens.size) :
    Progress.Kept excused loose (s.truncate c p) (s'.truncate c p') := by
  have hkept : Progress.Kept excused loose p p' := .inr ⟨htokens, .inr hsize⟩
  have hpush := Progress.Kept.push _ _ .text c.offset (c.offset + byteSize c.ahead) hkept
  rcases hpush with ⟨hloose, ht⟩ | hpush
  · exact .inl ⟨hloose, .inl (truncated_truncate s c p)⟩
  · right
    rwa [tokens_truncate, tokens_truncate]

/-- From one place on, the tokens of a scan are found by the other. -/
theorem scanFrom_kept (hg : s.grammar.Reclassifies s'.grammar words shadows)
    (hlimit : s'.limit = s.limit)
    (hrescan : rescan.Related (IsInner s.grammar.root source) (Progress.Kept excused loose) rescan')
    (hcovers : rescan.Covers) (hgrows : rescan.Obeys Progress.Grows)
    (hgrows' : rescan'.Obeys Progress.Grows)
    (hwords : ∀ t w, RawToken.Spells t source w → String.ofList w ∈ words → excused t)
    {bound bound' : List Char} (hbound : c.ahead.length ≤ bound.length)
    (hbound' : c.ahead.length ≤ bound'.length) (hc : c.Placed) (hin : c.LiesIn source)
    (hne : stack ≠ []) (hsheltered : Sheltered s.grammar.root excused loose
      (s.extentsFrom shadows rescan bound c stack p) stack)
    (h : Progress.Kept excused loose p p') :
    Progress.Kept excused loose (s.scanFrom rescan bound c stack p)
      (s'.scanFrom rescan' bound' c stack p') := by
  induction bound generalizing c stack p p' bound' with
  | nil =>
    have hnil : c.ahead = [] := List.length_eq_zero_iff.1 (Nat.le_zero.1 hbound)
    rw [scanFrom_of_nil hnil, scanFrom_of_nil hnil]
    exact h
  | cons b bound ih =>
    rcases h with ⟨hloose, ht⟩ | ⟨htokens, hsize⟩
    · exact Progress.kept_of_truncated hloose (s.obeys_grows.scanFrom hgrows _ c trivial)
        (s'.obeys_grows.scanFrom hgrows' _ c trivial) ht
    cases hahead : c.ahead with
    | nil =>
      rw [scanFrom_of_nil hahead, scanFrom_of_nil hahead]
      exact .inr ⟨htokens, hsize⟩
    | cons ch rest =>
      cases bound' with
      | nil => simp [hahead] at hbound'
      | cons b' bound' =>
      by_cases hfull : s.limit ≤ p.tokens.size
      · rw [scanFrom_of_cons hahead, if_pos hfull]
        rcases hsize with hloose | hsize
        · exact .inl ⟨hloose, .inl (truncated_truncate s c p)⟩
        · rw [scanFrom_of_cons hahead, if_pos (by omega)]
          exact truncate_kept s s' c htokens hsize
      rw [scanFrom_of_cons hahead, if_neg hfull]
      obtain ⟨u, hu, hreads, -⟩ := step_covers (s := s) hcovers hc hahead stack p
      have hlen := hreads.length_lt hu
      have hlength : c.ahead.length ≤ bound.length + 1 := hbound
      have hlength' : c.ahead.length ≤ bound'.length + 1 := hbound'
      have hnext := hsheltered.step hg hahead (by omega)
      have hne' := step_ne_nil s rescan c ch rest hne p
      rcases hg.parallel hc (stack.headD 0) with hstep | ⟨r, m, hm⟩
      · -- both scans take this step alike, unless the limit stops the second one here
        by_cases hfull' : s'.limit ≤ p'.tokens.size
        · rw [scanFrom_of_cons hahead stack p', if_pos hfull']
          rcases hsize with hloose | hsize
          · exact .inl ⟨hloose, .inr (truncated_truncate s' c p')⟩
          · omega
        obtain ⟨hplace, hstack, hkept⟩ :=
          step_kept hg hrescan hwords hc hin hstep ch rest (.inr ⟨htokens, hsize⟩)
        rw [scanFrom_of_cons hahead stack p', if_neg hfull', hplace, hstack]
        exact ih (by omega) (by omega) (hreads.placed hc) (hin.reads hreads) hne' hnext hkept
      · -- the match shadows others, and the second scan goes to its end in steps of its own
        obtain ⟨hloose, hextent⟩ := hsheltered.shadow hne hm hc (by omega)
        obtain ⟨bound'', p'', hlen'', hkept, heq⟩ :=
          shadow_kept hm hne hcovers hgrows' hc hloose hextent hbound' htokens
        rcases heq with heq | ht
        · rw [step_of_stay hm.takes hm.stays] at hreads hlen hnext hne' ⊢
          rw [heq]
          exact ih (by omega) hlen'' (hreads.placed hc) (hin.reads hreads) hne' hnext hkept
        · exact .inl ⟨hloose, .inr ht⟩

theorem scan_kept (hg : s.grammar.Reclassifies s'.grammar words shadows)
    (hlimit : s'.limit = s.limit)
    (hwords : ∀ t w, RawToken.Spells t source w → String.ofList w ∈ words → excused t)
    (levels : Nat) : Rescan.Related (IsInner s.grammar.root source)
      (Progress.Kept excused loose) (s.scan levels) (s'.scan levels) := by
  induction levels with
  | zero =>
    intro state text offset p p' htext h
    have hgrows : Rescan.plain.Obeys Progress.Grows := fun _ _ _ p => p.grows_push _ _ _
    exact scanFrom_kept hg hlimit (Rescan.related_plain Progress.Kept.push _) Rescan.covers_plain
      hgrows hgrows hwords (Nat.le_refl _) (Nat.le_refl _) (Cursor.placed_start text offset) htext.2
      (List.cons_ne_nil _ _) (.inl (by simpa using htext.1.symm)) h
  | succ levels ih =>
    intro state text offset p p' htext h
    exact scanFrom_kept hg hlimit ih (scan_covers s levels) (s.obeys_grows.scan levels)
      (s'.obeys_grows.scan levels) hwords (Nat.le_refl _) (Nat.le_refl _)
      (Cursor.placed_start text offset) htext.2 (List.cons_ne_nil _ _)
      (.inl (by simpa using htext.1.symm)) h

/-- The tokens that a scan finds in a source are found with a grammar that reclassifies words, but
for the words and what lies in the extents of shadowing matches.  If there are such matches, both
scans must stay below the token limit. -/
theorem run_kept (s s' : Scanner) (hg : s.grammar.Reclassifies s'.grammar words shadows)
    (hlimit : s'.limit = s.limit) (hcut : s.extents shadows source = [] ∨
      ((s.run source).truncated = false ∧ (s'.run source).truncated = false))
    {t : RawToken} (ht : t ∈ (s.run source).tokens) :
    t.Excused words (s.extents shadows source) source ∨ t ∈ (s'.run source).tokens := by
  let excused := RawToken.Excused words (s.extents shadows source) source
  let loose := s.extents shadows source ≠ []
  have hwords : ∀ t w, RawToken.Spells t source w → String.ofList w ∈ words → excused t :=
    fun t w hspells hw => .inl ⟨w, hspells, hw⟩
  have hsheltered : Sheltered s.grammar.root excused loose (s.extents shadows source)
      [s.grammar.root] :=
    .inr fun x hx => ⟨List.ne_nil_of_mem hx, fun t hstart hstop => .inr ⟨x, hx, hstart, hstop⟩⟩
  have hkept : Progress.Kept excused loose (s.run source) (s'.run source) := by
    rw [run, run, hg.root]
    exact scanFrom_kept hg hlimit (scan_kept hg hlimit hwords _) (scan_covers s _)
      (s.obeys_grows.scan _) (s'.obeys_grows.scan _) hwords (Nat.le_refl _) (Nat.le_refl _)
      (Cursor.placed_start source 0) (Cursor.liesIn_start source) (List.cons_ne_nil _ _)
      hsheltered (.inr ⟨by simp, .inr rfl⟩)
  rcases hkept with ⟨hloose, htruncated⟩ | ⟨htokens, -⟩
  · rcases hcut with hnil | ⟨hs, hs'⟩
    · exact absurd hnil hloose
    · simp [hs, hs'] at htruncated
  · exact htokens t ht

end Scanner

end Highlighting
