import Mathlib.Algebra.Order.Ring.Nat
import Highlighting.Proofs.Scan.KeptTokens
import Highlighting.Proofs.Scan.Points

/-!
# What a scan leaves unclassified

Two things end up as plain text that no rule has classified: a character that no rule of the state
on top matches, and what is behind the place where a scan finds the token limit reached
(`Scanner.left?`).  Both happen in the scan of the source and in scans of groups at any depth.

A run leaves these texts in the order of the source, each as a plain token of its own.  It counts
the bytes of the characters alone, reports them if the preferences ask for it, and is truncated if
there is a text of the other kind (`Progress.Leaves`, `Scanner.exists_leavings_run`).
-/

namespace Highlighting

/-- A character that no rule of a state matches, with its offset in the source. -/
structure Unmatched where
  state : Nat
  offset : Nat
  char : Char
deriving DecidableEq, Inhabited

/-- A text that no rule classifies. -/
inductive Leftover where
  | unmatched (u : Unmatched)
  /-- what is ahead where the token limit is reached -/
  | cut (offset : Nat) (text : List Char)
deriving DecidableEq, Inhabited

namespace Leftover

/-- The offset of the text in the source. -/
def start : Leftover → Nat
  | unmatched u => u.offset
  | cut offset _ => offset

/-- The characters of the text. -/
def text : Leftover → List Char
  | unmatched u => [u.char]
  | cut _ text => text

/-- The bytes of the text. -/
def size (l : Leftover) : Nat := byteSize l.text

/-- The token that the text becomes. -/
def token (l : Leftover) : RawToken := ⟨.text, l.start, l.start + l.size⟩

/-- Whether the text is what is behind a place where the token limit is reached. -/
def isCut : Leftover → Bool
  | unmatched _ => false
  | cut _ _ => true

/-- The character that no rule matches, if it is one. -/
def unmatched? : Leftover → Option Unmatched
  | unmatched u => some u
  | cut _ _ => none

theorem unmatched?_eq_some {u : Unmatched} {l : Leftover} :
    l.unmatched? = some u ↔ l = unmatched u := by
  cases l <;> simp [unmatched?]

theorem mem_filterMap_unmatched? {u : Unmatched} {ls : List Leftover} :
    u ∈ ls.filterMap unmatched? ↔ unmatched u ∈ ls := by
  simp [List.mem_filterMap, unmatched?_eq_some]

theorem size_unmatched (u : Unmatched) : (unmatched u).size = u.char.utf8Size := by
  simp [size, text]

end Leftover

/-! ### Warnings -/

/-- Whether an event is a warning with a code. -/
def Event.warnsOf (code : Code) (e : Event) : Bool := e.isWarning && e.code == code

theorem Event.warnsOf_warningWith (code code' : Code) (message : String) (context : Context) :
    (warningWith code' message context).warnsOf code = (code' == code) := rfl

theorem Event.warnsOf_debug (code : Code) (message : String) (context : Context) :
    (debug message context).warnsOf code = false := rfl

theorem Event.warnsOf_success (code code' : Code) (message : String) (context : Context) :
    (success code' message context).warnsOf code = false := rfl

namespace Progress

variable {code : Code}

/-- The warnings with a code. -/
def warnings (code : Code) (p : Progress) : List Event := p.events.toList.filter (·.warnsOf code)

theorem warnings_congr {p q : Progress} (h : q.events = p.events) :
    q.warnings code = p.warnings code := by
  rw [warnings, warnings, h]

theorem warnings_report (p : Progress) (e : Event) : (p.report e).warnings code =
    p.warnings code ++ if e.warnsOf code then [e] else [] := by
  rw [warnings, report, Array.toList_push, List.filter_append, List.filter_singleton,
    Bool.cond_eq_ite, warnings]

theorem warnings_push (p : Progress) (category : Category) (start stop : Nat) :
    (p.push category start stop).warnings code = p.warnings code := by
  unfold push
  split <;> rfl

theorem unmatchedBytes_push (p : Progress) (category : Category) (start stop : Nat) :
    (p.push category start stop).unmatchedBytes = p.unmatchedBytes := by
  unfold push
  split <;> rfl

theorem ignoredPushes_push (p : Progress) (category : Category) (start stop : Nat) :
    (p.push category start stop).ignoredPushes = p.ignoredPushes := by
  unfold push
  split <;> rfl

/-- The tokens that a push adds. -/
theorem exists_tokens_push (p : Progress) (category : Category) (start stop : Nat) :
    ∃ ts, (p.push category start stop).tokens.toList = p.tokens.toList ++ ts ∧
      (start < stop → ts = [⟨category, start, stop⟩]) := by
  unfold push
  split
  · exact ⟨_, Array.toList_push, fun _ => rfl⟩
  · next h => exact ⟨[], (List.append_nil _).symm, fun hlt => absurd hlt h⟩

end Progress

/-- How an unmatched character is reported. -/
def Grammar.unmatchedReport (g : Grammar) (u : Unmatched) : Event :=
  .warningWith .unmatchedInput "Input matched no rule"
    [("state", (g.stateName? u.state).getD "?"), ("offset", toString u.offset)]

namespace Scanner

variable {s : Scanner} {code : Code}

/-- How it is reported that the token limit is reached. -/
def limitReport (s : Scanner) (c : Cursor) : Event :=
  .warningWith .tokenLimitReached "Token limit reached, remaining input left unclassified"
    [("grammar", s.grammar.name), ("limit", toString s.limit),
     ("remaining_bytes", toString (byteSize c.ahead))]

/-- How it is reported that a push finds the state stack full. -/
def depthReport (s : Scanner) (state : Nat) : Event :=
  .warningWith .stateDepthExceeded "State stack depth limit reached"
    [("grammar", s.grammar.name), ("state", (s.grammar.stateName? state).getD "?"),
     ("limit", toString Limits.maxStateDepth)]

theorem warnings_unmatched (s : Scanner) (state : Nat) (c : Cursor) (ch : Char) (p : Progress) :
    (s.unmatched state c ch p).warnings code =
      p.warnings code ++ if s.logUnmatched = true ∧ code = .unmatchedInput then
        [s.grammar.unmatchedReport ⟨state, c.offset, ch⟩] else [] := by
  unfold unmatched
  dsimp only
  rw [Progress.warnings_push]
  split
  · next h =>
    rw [Progress.warnings_report, Event.warnsOf_warningWith]
    simp only [beq_iff_eq, h, true_and, eq_comm (a := code)]
    rfl
  · next h =>
    rw [if_neg fun hand => h hand.1, List.append_nil]
    rfl

theorem unmatchedBytes_unmatched (s : Scanner) (state : Nat) (c : Cursor) (ch : Char)
    (p : Progress) :
    (s.unmatched state c ch p).unmatchedBytes = p.unmatchedBytes + ch.utf8Size := by
  unfold unmatched
  dsimp only
  rw [Progress.unmatchedBytes_push]
  split <;> rfl

theorem ignoredPushes_unmatched (s : Scanner) (state : Nat) (c : Cursor) (ch : Char)
    (p : Progress) : (s.unmatched state c ch p).ignoredPushes = p.ignoredPushes := by
  unfold unmatched
  dsimp only
  rw [Progress.ignoredPushes_push]
  split <;> rfl

theorem warnings_truncate (s : Scanner) (c : Cursor) (p : Progress) :
    (s.truncate c p).warnings code =
      p.warnings code ++ if p.truncated = false ∧ code = .tokenLimitReached then
        [s.limitReport c] else [] := by
  unfold truncate
  dsimp only
  rw [Progress.warnings_push]
  split
  · next h => rw [if_neg (by simp [h]), List.append_nil]
  · next h =>
    rw [Progress.warnings_report, Event.warnsOf_warningWith]
    simp only [beq_iff_eq, Bool.not_eq_true _ ▸ h, true_and, eq_comm (a := code)]
    rfl

theorem unmatchedBytes_truncate (s : Scanner) (c : Cursor) (p : Progress) :
    (s.truncate c p).unmatchedBytes = p.unmatchedBytes := by
  unfold truncate
  dsimp only
  rw [Progress.unmatchedBytes_push]
  split <;> rfl

theorem ignoredPushes_truncate (s : Scanner) (c : Cursor) (p : Progress) :
    (s.truncate c p).ignoredPushes = p.ignoredPushes := by
  unfold truncate
  dsimp only
  rw [Progress.ignoredPushes_push]
  split <;> rfl

/-- A push onto a full stack is counted, and reported if it is the first one; nothing else is
counted or reported when the stack changes. -/
theorem follow_eq (s : Scanner) (t : Transition Nat) (stack : List Nat) (p : Progress) :
    ((s.follow t stack p).2.ignoredPushes = p.ignoredPushes ∧
        (s.follow t stack p).2.events = p.events) ∨
      ∃ state, (s.follow t stack p).2.ignoredPushes = p.ignoredPushes + 1 ∧
        (s.follow t stack p).2.events = if p.ignoredPushes = 0 then
          p.events.push (s.depthReport state) else p.events := by
  cases t with
  | stay | pop => exact .inl ⟨rfl, rfl⟩
  | push state =>
    unfold follow
    dsimp only
    split
    · refine .inr ⟨state, ?_, ?_⟩
      · split <;> rfl
      · split <;> rfl
    · exact .inl ⟨rfl, rfl⟩

theorem unmatchedBytes_follow (s : Scanner) (t : Transition Nat) (stack : List Nat)
    (p : Progress) : (s.follow t stack p).2.unmatchedBytes = p.unmatchedBytes := by
  cases t with
  | stay | pop => rfl
  | push state =>
    unfold follow
    dsimp only
    split
    · split <;> rfl
    · rfl

theorem warnings_follow (hcode : code ≠ .stateDepthExceeded) (t : Transition Nat)
    (stack : List Nat) (p : Progress) :
    (s.follow t stack p).2.warnings code = p.warnings code := by
  rcases s.follow_eq t stack p with ⟨-, hevents⟩ | ⟨state, -, hevents⟩
  · exact Progress.warnings_congr hevents
  · split at hevents
    · have hreport : (s.depthReport state).warnsOf code = false := by
        rw [depthReport, Event.warnsOf_warningWith]
        exact beq_false_of_ne hcode.symm
      rw [Progress.warnings_congr (p := p.report (s.depthReport state)) hevents,
        Progress.warnings_report, hreport]
      exact List.append_nil _
    · exact Progress.warnings_congr hevents

end Scanner

/-! ### Progress that leaves texts -/

/-- Progress goes on to later progress and leaves some texts on the way.  They are plain tokens
among the new ones; the unmatched characters are counted, and reported in order if the scanner does
so; and a text that was cut off makes the progress truncated. -/
structure Progress.Leaves (s : Scanner) (ls : List Leftover) (p q : Progress) : Prop where
  tokens : ∃ ts, q.tokens.toList = p.tokens.toList ++ ts ∧
    (ls.map Leftover.token).Sublist ts
  bytes : q.unmatchedBytes =
    p.unmatchedBytes + ((ls.filterMap Leftover.unmatched?).map fun u => u.char.utf8Size).sum
  truncated : q.truncated = (p.truncated || ls.any Leftover.isCut)
  reports : q.warnings .unmatchedInput = p.warnings .unmatchedInput ++
    if s.logUnmatched then (ls.filterMap Leftover.unmatched?).map s.grammar.unmatchedReport else []

namespace Progress.Leaves

variable {s : Scanner} {p q q' : Progress} {ls ls' : List Leftover}

theorem refl (s : Scanner) (p : Progress) : Leaves s [] p p where
  tokens := ⟨[], (List.append_nil _).symm, .slnil⟩
  bytes := rfl
  truncated := (Bool.or_false _).symm
  reports := by simp

theorem trans (h : Leaves s ls p q) (h' : Leaves s ls' q q') : Leaves s (ls ++ ls') p q' where
  tokens := by
    obtain ⟨ts, hts, hsub⟩ := h.tokens
    obtain ⟨us, hus, hsub'⟩ := h'.tokens
    exact ⟨ts ++ us, by rw [hus, hts, List.append_assoc],
      by rw [List.map_append]; exact hsub.append hsub'⟩
  bytes := by
    rw [h'.bytes, h.bytes, List.filterMap_append, List.map_append, List.sum_append, Nat.add_assoc]
  truncated := by rw [h'.truncated, h.truncated, List.any_append, Bool.or_assoc]
  reports := by
    rw [h'.reports, h.reports, List.append_assoc, List.filterMap_append, List.map_append]
    split <;> simp

/-- A token that a rule gives leaves nothing. -/
theorem push (s : Scanner) (p : Progress) (category : Category) (start stop : Nat) :
    Leaves s [] p (p.push category start stop) where
  tokens := by
    obtain ⟨ts, hts, -⟩ := p.exists_tokens_push category start stop
    exact ⟨ts, hts, List.nil_sublist ts⟩
  bytes := p.unmatchedBytes_push category start stop
  truncated := by simp [p.push_truncated]
  reports := by simp [p.warnings_push]

theorem follow (s : Scanner) (t : Transition Nat) (stack : List Nat) (p : Progress) :
    Leaves s [] p (s.follow t stack p).2 where
  tokens := ⟨[], by rw [Scanner.tokens_follow, List.append_nil], .slnil⟩
  bytes := s.unmatchedBytes_follow t stack p
  truncated := by simp [s.truncated_follow]
  reports := by
    rw [Scanner.warnings_follow (by decide)]
    simp

theorem unmatched (s : Scanner) (state : Nat) (c : Cursor) (ch : Char) (p : Progress) :
    Leaves s [.unmatched ⟨state, c.offset, ch⟩] p (s.unmatched state c ch p) where
  tokens := by
    obtain ⟨ts, hts, hnew⟩ := p.exists_tokens_push .text c.offset (c.offset + ch.utf8Size)
    have hlt : c.offset < c.offset + ch.utf8Size := Nat.lt_add_of_pos_right ch.utf8Size_pos
    refine ⟨ts, by rw [Scanner.tokens_unmatched, hts], ?_⟩
    rw [hnew hlt]
    exact .refl _
  bytes := s.unmatchedBytes_unmatched state c ch p
  truncated := by simp [s.truncated_unmatched, Leftover.isCut]
  reports := by
    rw [s.warnings_unmatched]
    simp [Leftover.unmatched?]

theorem truncate (s : Scanner) {c : Cursor} (hc : c.ahead ≠ []) (p : Progress) :
    Leaves s [.cut c.offset c.ahead] p (s.truncate c p) where
  tokens := by
    obtain ⟨ts, hts, hnew⟩ := p.exists_tokens_push .text c.offset (c.offset + byteSize c.ahead)
    have hlt : c.offset < c.offset + byteSize c.ahead := Nat.lt_add_of_pos_right (byteSize_pos hc)
    refine ⟨ts, by rw [Scanner.tokens_truncate, hts], ?_⟩
    rw [hnew hlt]
    exact .refl _
  bytes := s.unmatchedBytes_truncate c p
  truncated := by simp [s.truncated_truncate, Leftover.isCut]
  reports := by
    have hcode : Code.unmatchedInput ≠ Code.tokenLimitReached := by decide
    rw [s.warnings_truncate, if_neg fun h => hcode h.2]
    simp [Leftover.unmatched?]

end Progress.Leaves

/-! ### What is left from a point on -/

namespace Scanner

variable {s : Scanner} {x y : Point} {source : List Char} {l : Leftover}

/-- What a scan leaves unclassified at a point: the rest of its text where the token limit is
reached, and else the next character if no rule of the state on top matches. -/
def left? (s : Scanner) (x : Point) : Option Leftover :=
  match x.cursor.ahead with
  | [] => none
  | ch :: _ =>
    if s.limit ≤ x.progress.tokens.size then some (.cut x.cursor.offset x.cursor.ahead)
    else
      match s.grammar.firstMatch? x.top x.cursor with
      | none => some (.unmatched ⟨x.top, x.cursor.offset, ch⟩)
      | some _ => none

/-- Something is left at a point that a run comes to from another one. -/
def LeavesFrom (s : Scanner) (x : Point) (l : Leftover) : Prop :=
  ∃ y, Relation.ReflTransGen s.GoesTo x y ∧ s.left? y = some l

/-- The texts are all that is left from a point on, in order. -/
structure Leavings (s : Scanner) (x : Point) (ls : List Leftover) : Prop where
  mem_iff : ∀ l, l ∈ ls ↔ s.LeavesFrom x l
  progress : Progress.Leaves s ls x.progress (s.finish x)

/-- What is left from a point on is left there, in the scans that are started there, or from the
next point on. -/
theorem leavesFrom_iff : s.LeavesFrom x l ↔ s.left? x = some l ∨
    (∃ y ∈ s.inner x, s.LeavesFrom y l) ∨ ∃ y, s.next? x = some y ∧ s.LeavesFrom y l := by
  constructor
  · rintro ⟨y, hxy, hl⟩
    rcases Relation.ReflTransGen.cases_head hxy with rfl | ⟨z, hz, hzy⟩
    · exact .inl hl
    · cases hz with
      | next hz => exact .inr (.inr ⟨z, hz, y, hzy, hl⟩)
      | inner hz => exact .inr (.inl ⟨z, hz, y, hzy, hl⟩)
  · rintro (hl | ⟨z, hz, y, hzy, hl⟩ | ⟨z, hz, y, hzy, hl⟩)
    · exact ⟨x, .refl, hl⟩
    · exact ⟨y, .head (.inner hz) hzy, hl⟩
    · exact ⟨y, .head (.next hz) hzy, hl⟩

/-- The parts of a match leave what the scans that they start leave. -/
theorem exists_leavings_parts {depth : Nat} (hdepth : depth < Limits.maxStateDepth) (c : Cursor)
    (parts : List MatchPart) (p : Progress)
    (h : ∀ y ∈ s.innerFrom depth c parts p, ∃ ls, s.Leavings y ls) :
    ∃ ls, (∀ l, l ∈ ls ↔ ∃ y ∈ s.innerFrom depth c parts p, s.LeavesFrom y l) ∧
      Progress.Leaves s ls p (parts.foldl (emitPart (s.rescanAt depth) c) p) := by
  induction parts generalizing p with
  | nil => exact ⟨[], by simp [innerFrom], .refl s p⟩
  | cons part parts ih =>
    obtain ⟨ls', hmem', hleaves'⟩ := ih (emitPart (s.rescanAt depth) c p part) fun y hy =>
      h y (List.mem_append_right _ hy)
    rw [List.foldl_cons]
    obtain ⟨action, start, stop⟩ := part
    cases action with
    | token category | keywords table =>
      exact ⟨ls', hmem', (Progress.Leaves.push s p _ _ _).trans hleaves'⟩
    | scan state =>
      obtain ⟨ls, hls⟩ := h _ (List.mem_append_left _ List.mem_cons_self)
      have hemit : emitPart (s.rescanAt depth) c p ⟨.scan state, start, stop⟩ =
          s.finish (.start (depth + 1) state (textBetween c start stop) start p) := by
        rw [emitPart, emitGroup, rescanAt_eq, if_pos hdepth]
      refine ⟨ls ++ ls', fun l => ?_, ?_⟩
      · rw [List.mem_append, hls.mem_iff, hmem', innerFrom]
        simp only [GroupAction.states, List.map_cons, List.map_nil, List.cons_append,
          List.nil_append, List.mem_cons, exists_eq_or_imp]
      · refine .trans ?_ hleaves'
        rw [hemit]
        exact hls.progress

/-- Where no scan is started, the parts of a match leave nothing. -/
theorem leaves_parts_of_le {depth : Nat} (hdepth : Limits.maxStateDepth ≤ depth) (c : Cursor)
    (parts : List MatchPart) (p : Progress) :
    Progress.Leaves s [] p (parts.foldl (emitPart (s.rescanAt depth) c) p) := by
  induction parts generalizing p with
  | nil => exact .refl s p
  | cons part parts ih =>
    have hpart : Progress.Leaves s [] p (emitPart (s.rescanAt depth) c p part) := by
      obtain ⟨action, start, stop⟩ := part
      cases action with
      | token category | keywords table => exact .push s p _ _ _
      | scan state =>
        rw [emitPart, emitGroup, rescanAt_eq, if_neg (Nat.not_lt.2 hdepth)]
        exact .push s p _ _ _
    exact hpart.trans (ih _)

theorem left?_of_taken? {r : CompiledRule} {m : RuleMatch} (h : s.taken? x = some (r, m)) :
    s.left? x = none := by
  obtain ⟨⟨hne, hlt⟩, hmatch⟩ := taken?_eq_some h
  obtain ⟨ch, rest, hahead⟩ := List.exists_cons_of_ne_nil hne
  simp [left?, hahead, Nat.not_le.2 hlt, hmatch]

theorem left?_of_unmatched (hopen : s.IsOpen x)
    (hnone : s.grammar.firstMatch? x.top x.cursor = none) {ch : Char} {rest : List Char}
    (hahead : x.cursor.ahead = ch :: rest) :
    s.left? x = some (.unmatched ⟨x.top, x.cursor.offset, ch⟩) := by
  simp [left?, hahead, Nat.not_le.2 hopen.2, hnone]

theorem inner_of_taken?_none (h : s.taken? x = none) : s.inner x = [] := by
  rw [inner, h]

theorem taken?_of_firstMatch?_none (h : s.grammar.firstMatch? x.top x.cursor = none) :
    s.taken? x = none := by
  rw [taken?, h, ite_self]

/-- A scan that does not go on leaves the rest of its text, if there is one. -/
theorem leavings_of_next?_none (h : s.next? x = none) : ∃ ls, s.Leavings x ls := by
  have hopen := next?_eq_none h
  have hinner : s.inner x = [] := inner_of_taken?_none (if_neg hopen)
  have hmem : ∀ l, s.LeavesFrom x l ↔ s.left? x = some l := fun l => by
    rw [leavesFrom_iff, hinner, h]
    simp
  by_cases hnil : x.cursor.ahead = []
  · refine ⟨[], fun l => ?_, ?_⟩
    · rw [hmem, left?, hnil]
      simp
    · rw [finish_eq_closing h, closing, if_pos hnil]
      exact .refl s x.progress
  · obtain ⟨ch, rest, hahead⟩ := List.exists_cons_of_ne_nil hnil
    have hlimit : s.limit ≤ x.progress.tokens.size :=
      Nat.not_lt.1 fun hlt => hopen ⟨hnil, hlt⟩
    refine ⟨[.cut x.cursor.offset x.cursor.ahead], fun l => ?_, ?_⟩
    · rw [hmem, left?, hahead]
      simp [hlimit, eq_comm]
    · rw [finish_eq_closing h, closing, if_neg hnil]
      exact .truncate s hnil x.progress

/-- What a match leaves in the scans that it starts, and then the change of the stack nothing. -/
theorem exists_leavings_match {r : CompiledRule} {m : RuleMatch} (htaken : s.taken? x = some (r, m))
    (h : ∀ y ∈ s.inner x, ∃ ls, s.Leavings y ls) :
    ∃ ls, (∀ l, l ∈ ls ↔ ∃ y ∈ s.inner x, s.LeavesFrom y l) ∧
      Progress.Leaves s ls x.progress
        (s.follow r.transition x.stack (emit (s.rescanAt x.depth) x.cursor r m x.progress)).2 := by
  rw [inner, htaken] at h ⊢
  dsimp only at h ⊢
  rw [emit_eq_foldl]
  by_cases hdepth : x.depth < Limits.maxStateDepth
  · rw [if_pos hdepth] at h ⊢
    obtain ⟨ls, hmem, hleaves⟩ := exists_leavings_parts hdepth x.cursor _ x.progress h
    refine ⟨ls, hmem, ?_⟩
    rw [← List.append_nil ls]
    exact hleaves.trans (.follow s _ _ _)
  · rw [if_neg hdepth]
    have hleaves := leaves_parts_of_le (s := s) (Nat.not_lt.1 hdepth) x.cursor
      (r.parts x.cursor m) x.progress
    exact ⟨[], by simp, hleaves.trans (.follow s _ _ _)⟩

/-- What is left from a point on can be listed in order. -/
theorem Point.Lies.exists_leavings (h : x.Lies source) : ∃ ls, s.Leavings x ls := by
  have hacc : Acc (fun y x => s.GoesTo x y) x := h.acc
  induction hacc with
  | intro x _ ih =>
  cases hy : s.next? x with
  | none => exact leavings_of_next?_none hy
  | some y =>
    obtain ⟨ls', hls'⟩ := ih y (.next hy) (h.next hy).1
    have hmem : ∀ l, s.LeavesFrom x l ↔ s.left? x = some l ∨
        (∃ z ∈ s.inner x, s.LeavesFrom z l) ∨ l ∈ ls' := fun l => by
      rw [leavesFrom_iff, hy, hls'.mem_iff]
      simp
    rcases next?_eq_some hy with ⟨r, m, htaken, rfl⟩ | ⟨hopen, hnone, ch, rest, hahead, rfl⟩
    · obtain ⟨ls, hinner, hleaves⟩ := exists_leavings_match htaken fun z hz =>
        ih z (.inner hz) (h.inner hz).1
      refine ⟨ls ++ ls', fun l => ?_, ?_⟩
      · rw [hmem, left?_of_taken? htaken, List.mem_append, hinner]
        simp
      · rw [h.finish_next hy]
        exact hleaves.trans hls'.progress
    · refine ⟨.unmatched ⟨x.top, x.cursor.offset, ch⟩ :: ls', fun l => ?_, ?_⟩
      · rw [hmem, left?_of_unmatched hopen hnone hahead,
          inner_of_taken?_none (taken?_of_firstMatch?_none hnone), List.mem_cons]
        simp [eq_comm]
      · rw [h.finish_next hy]
        exact (Progress.Leaves.unmatched s x.top x.cursor ch x.progress).trans hls'.progress

/-- All that a run leaves, in order. -/
theorem exists_leavings_run (s : Scanner) (source : List Char) :
    ∃ ls, (∀ l, l ∈ ls ↔ ∃ x, s.Visits source x ∧ s.left? x = some l) ∧
      Progress.Leaves s ls {} (s.run source) := by
  obtain ⟨ls, hls⟩ := (origin_lies s source).exists_leavings (s := s)
  rw [run_eq_finish]
  exact ⟨ls, hls.mem_iff, hls.progress⟩

end Scanner

/-! ### Where the texts stand -/

/-- The tokens of a tiling stand one behind the other. -/
theorem Tiles.pairwise {n : Nat} {cs : List Char} {ts : List RawToken} (h : Tiles n cs ts) :
    ts.Pairwise fun t u => t.stop ≤ u.start := by
  induction ts generalizing n cs with
  | nil => exact .nil
  | cons t ts ih =>
    obtain ⟨u, v, -, -, -, -, hts⟩ := h
    exact .cons (fun w hw => (hts.bounds hw).1) (ih hts)

/-- A text that is not empty stands in a source at its offset. -/
def Leftover.StandsIn (l : Leftover) (source : List Char) : Prop :=
  l.text ≠ [] ∧ ∃ before after, source = before ++ l.text ++ after ∧ byteSize before = l.start

/-- What is left at a point is what is ahead there, or the first character of it. -/
theorem Scanner.Visits.standsIn_left {s : Scanner} {source : List Char} {x : Point} {l : Leftover}
    (h : s.Visits source x) (hl : s.left? x = some l) : l.StandsIn source := by
  obtain ⟨before, after, hsource, hoffset⟩ := h.lies.standsIn.liesIn
  rw [left?] at hl
  split at hl
  · cases hl
  · next ch rest hahead =>
    split at hl
    · obtain rfl := Option.some.inj hl
      refine ⟨by simp [Leftover.text, hahead], before, after, ?_, hoffset.symm⟩
      rw [hsource, List.append_assoc]
      rfl
    · split at hl
      · obtain rfl := Option.some.inj hl
        refine ⟨List.cons_ne_nil _ _, before, rest ++ after, ?_, hoffset.symm⟩
        rw [hsource, hahead]
        simp [Leftover.text]
      · cases hl

namespace Grammar

/-- A text is left unclassified when a source is tokenized: the scan of the source, or one of a
group inside of it, leaves it at a point. -/
def Leaves (g : Grammar) (prefs : LexicalPreferences) (source : String) (l : Leftover) : Prop :=
  let s : Scanner := ⟨g, prefs.tokenLimit, prefs.logUnmatched⟩
  ∃ x, s.Visits source.toList x ∧ s.left? x = some l

/-- All texts that are left unclassified when a source is tokenized, in the order in which they
stand in it. -/
theorem exists_leftovers (g : Grammar) (prefs : LexicalPreferences) (source : String) :
    ∃ ls : List Leftover, (∀ l, l ∈ ls ↔ g.Leaves prefs source l) ∧
      ls.Pairwise (fun l l' => l.start + l.size ≤ l'.start) ∧
      (∀ l ∈ ls, l.StandsIn source.toList) ∧
      Progress.Leaves ⟨g, prefs.tokenLimit, prefs.logUnmatched⟩ ls {}
        (g.progress prefs source) := by
  obtain ⟨ls, hmem, hleaves⟩ :=
    Scanner.exists_leavings_run ⟨g, prefs.tokenLimit, prefs.logUnmatched⟩ source.toList
  refine ⟨ls, hmem, ?_, fun l hl => ?_, hleaves⟩
  · obtain ⟨ts, hts, hsub⟩ := hleaves.tokens
    have htokens : (g.progress prefs source).tokens.toList = ts := hts
    have hpairwise := (htokens ▸ g.progress_tiles prefs source).pairwise.sublist hsub
    exact List.pairwise_map.1 hpairwise
  · obtain ⟨x, hx, hleft⟩ := (hmem l).1 hl
    exact hx.standsIn_left hleft

end Grammar

end Highlighting
