import Highlighting.Proofs.Language.DisabledRules
import Highlighting.Proofs.Language.Tables

/-!
# Disabled blocks

Where an `#if 0` line opens a block at top level, all characters of the block are in comments
(`CFamily.tokenize_hides`): a run in the block takes one match after another, each of some
characters of one line, and the state stack counts the conditionals that are open in the block
(`CFamily.InBlock.next`, `CFamily.InBlock.hides`).

The stack has a greatest height, and a push onto a full one is ignored, so the conditionals in a
block may be nested so deep and no deeper; and once the token limit is reached, what is left of the
source is unclassified.  Nothing is said about blocks in which a conditional has further branches.
-/

namespace Highlighting

namespace CFamily

variable {s : Scanner} {x y : Scanner.Point} {source : List Char} {r : CompiledRule} {m : RuleMatch}
  {c e : Cursor} {u line after : List Char} {lines : List (List Char)} {n n' : Nat}

/-! ### What is ahead of a run -/

/-- The directives of lines, in the first of which a place is. -/
def directivesFrom (c : Cursor) : List (List Char) → List (Option Directive)
  | [] => []
  | _ :: lines => directiveAt? c :: lines.map directive?

/-- Directives leave a run in a block in which some conditionals are open, and the state stack
never gets full. -/
def Stays : Nat → List (Option Directive) → Prop
  | _, [] => True
  | n, d :: ds => d ≠ some .turns ∧
      ∃ n', nest n d = some n' ∧ n' + 2 ≤ Limits.maxStateDepth ∧ Stays n' ds

theorem IsLine.ne_nil (h : IsLine line) : line ≠ [] := by
  obtain ⟨v, -, rfl⟩ := h
  simp

/-- What is read of a line is the line or leaves a part of it. -/
theorem IsLine.cut (h : IsLine line) (hu : c.Reads u e) (hahead : c.ahead = line ++ after)
    (hfeed : '\n' ∉ u.dropLast) :
    (u = line ∧ e.ahead = after ∧ e.before = some '\n') ∨
      ∃ rest, line = u ++ rest ∧ IsLine rest ∧ '\n' ∉ u ∧ e.ahead = rest ++ after := by
  obtain ⟨v, hv, rfl⟩ := h
  have hboth : v ++ '\n' :: after = u ++ e.ahead := by
    rw [← hu.ahead, hahead]
    simp
  rcases List.append_eq_append_iff.1 hboth with ⟨w, rfl, hw⟩ | ⟨w, rfl, hw⟩
  · cases w with
    | nil =>
      refine .inr ⟨['\n'], by simp, ⟨[], by simp, rfl⟩, by simpa using hv, ?_⟩
      exact hw.symm
    | cons ch w =>
      obtain ⟨rfl, rfl⟩ := List.cons.inj hw
      cases w with
      | nil => exact .inl ⟨rfl, rfl, by rw [hu.before]; simp⟩
      | cons ch w =>
        refine absurd ?_ hfeed
        rw [List.dropLast_append_of_ne_nil (by simp)]
        simp
  · refine .inr ⟨w ++ ['\n'], by simp, ⟨w, ?_, rfl⟩, ?_, by rw [hw]; simp⟩
    · exact fun hmem => hv (List.mem_append_right u hmem)
    · exact fun hmem => hv (List.mem_append_left w hmem)

/-- At the start of a line the directives ahead are those of the lines. -/
theorem directivesFrom_eq (hbefore : c.before = some '\n')
    (hahead : c.ahead = lines.flatten ++ after) (hlines : ∀ line ∈ lines, IsLine line) :
    directivesFrom c lines = lines.map directive? := by
  cases lines with
  | nil => rfl
  | cons line lines =>
    have hstart : Look.lineStart.holds c = true := by simp [Look.holds, hbefore]
    rw [directivesFrom, directiveAt?, if_pos hstart, hahead, List.flatten_cons, List.append_assoc,
      (hlines line List.mem_cons_self).directive?_append]
    rfl

/-- Behind characters of the first line the lines that are left have the directives of the lines
that follow. -/
theorem exists_linesAhead (hu : c.Reads u e) (hne : u ≠ []) (hfeed : '\n' ∉ u.dropLast)
    (hahead : c.ahead = (line :: lines).flatten ++ after)
    (hlines : ∀ l ∈ line :: lines, IsLine l) (hstays : Stays n (lines.map directive?))
    (hroom : n + 2 ≤ Limits.maxStateDepth) :
    ∃ lines', e.ahead = lines'.flatten ++ after ∧ (∀ line ∈ lines', IsLine line) ∧
      Stays n (directivesFrom e lines') ∧
      c.offset + byteSize (line :: lines).flatten = e.offset + byteSize lines'.flatten := by
  obtain ⟨hline, hmore⟩ := List.forall_mem_cons.1 hlines
  rw [List.flatten_cons, List.append_assoc] at hahead
  rcases hline.cut hu hahead hfeed with ⟨rfl, hrest, hbefore⟩ | ⟨rest, rfl, hrest, hmem, hbehind⟩
  · refine ⟨lines, hrest, hmore, directivesFrom_eq hbefore hrest hmore ▸ hstays, ?_⟩
    rw [List.flatten_cons, byteSize_append, hu.offset, Nat.add_assoc]
  · have hinside : directiveAt? e = none := by
      have hlast : u.getLast hne ≠ '\n' := fun heq => hmem (heq ▸ List.getLast_mem hne)
      simp [directiveAt?, Look.holds, hu.before, List.getLast?_eq_some_getLast hne, hlast]
    refine ⟨rest :: lines, by simp [hbehind], List.forall_mem_cons.2 ⟨hrest, hmore⟩, ?_, ?_⟩
    · rw [directivesFrom, hinside]
      exact ⟨by simp, n, rfl, hroom, hstays⟩
    · rw [List.flatten_cons, List.flatten_cons, List.append_assoc, byteSize_append, hu.offset,
        Nat.add_assoc]

/-! ### What a run hides -/

/-- A byte of a source is in a comment, or in what the token limit leaves unclassified. -/
def Hides (p : Progress) (size n : Nat) : Prop :=
  ∃ t ∈ p.tokens, t.start ≤ n ∧ n < t.stop ∧
    (t.category ∈ hiddenCategories ∨
      (p.truncated = true ∧ t.category = .text ∧ t.stop = size))

/-- A quiet match hides what it reads, and reads characters of one line. -/
theorem IsQuiet.hides (hquiet : IsQuiet r) (hx : s.Visits source x) (hdepth : x.depth = 0)
    (htaken : s.taken? x = some (r, m)) (size : Nat) :
    ∃ u, x.cursor.Reads u m.stop ∧ u ≠ [] ∧ '\n' ∉ u.dropLast ∧
      ∀ n, x.cursor.offset ≤ n → n < m.stop.offset → Hides (s.run source) size n := by
  have hinside := hx.lies.inside htaken
  obtain ⟨u, hu⟩ := hinside.reaches
  obtain ⟨category, hcategory, haction⟩ := hquiet.action
  obtain ⟨p, hp, hstays⟩ := (Option.any_eq_true _ _).1 hquiet.body
  have hfeed := (leads_of_taken? hx.lies htaken hp).not_mem_dropLast hstays hu
  have hnext := Scanner.next?_of_taken? htaken
  have hvisits := Relation.ReflTransGen.tail hx (.next hnext)
  have hmem : ⟨category, x.cursor.offset, m.stop.offset⟩ ∈ (s.run source).tokens := by
    refine Scanner.Visits.mem_run hvisits hdepth ?_
    dsimp only
    rw [Scanner.tokens_follow, Scanner.emit, haction]
    simp [Progress.push, hinside.advances]
  exact ⟨u, hu, hu.ne_nil hinside.advances, hfeed,
    fun n hge hlt => ⟨_, hmem, hge, hlt, .inl hcategory⟩⟩

/-- A scan of the source that the token limit stops leaves all that is ahead unclassified. -/
theorem hides_of_limit (hx : s.Visits source x) (hdepth : x.depth = 0)
    (hahead : x.cursor.ahead ≠ []) (hlimit : s.limit ≤ x.progress.tokens.size)
    (hge : x.cursor.offset ≤ n)
    (hlt : n < x.cursor.offset + byteSize x.cursor.ahead) :
    Hides (s.run source) (byteSize source) n := by
  have hnext : s.next? x = none := by
    rw [Scanner.next?]
    split
    · rfl
    · rw [if_pos hlimit]
  have hrun : s.run source = s.truncate x.cursor x.progress := by
    rw [← hx.finish_eq_run hdepth, Scanner.finish_eq_closing hnext, Scanner.closing, if_neg hahead]
  have hsize : x.cursor.offset + byteSize x.cursor.ahead = byteSize source := by
    obtain ⟨htext, hbase⟩ := hx.whole hdepth
    have hend := hx.lies.cursor.end_eq
    rwa [htext, hbase, Cursor.start, Nat.zero_add] at hend
  refine ⟨⟨.text, x.cursor.offset, x.cursor.offset + byteSize x.cursor.ahead⟩, ?_, hge, hlt,
    .inr ⟨?_, rfl, hsize⟩⟩
  · rw [hrun, Scanner.tokens_truncate, Progress.push, if_pos (by omega)]
    simp
  · rw [hrun, Scanner.truncated_truncate]

/-! ### Runs in a block -/

/-- A run is in a disabled block in which some conditionals are open. -/
structure InBlock (s : Scanner) (source : List Char) (x : Scanner.Point) (n : Nat) : Prop where
  visits : s.Visits source x
  depth : x.depth = 0
  stack : x.stack.map s.grammar.stateName? =
    (List.replicate (n + 1) "if_0" ++ [rootState]).map some

theorem InBlock.next (hg : DisablesBlocks s.grammar) (h : InBlock s source x n) (hopen : s.IsOpen x)
    (hturns : directiveAt? x.cursor ≠ some .turns)
    (hnest : nest n (directiveAt? x.cursor) = some n') (hroom : n' + 2 ≤ Limits.maxStateDepth)
    (size : Nat) :
    ∃ y u, InBlock s source y n' ∧ x.cursor.Reads u y.cursor ∧ u ≠ [] ∧ '\n' ∉ u.dropLast ∧
      ∀ k, x.cursor.offset ≤ k → k < y.cursor.offset → Hides (s.run source) size k := by
  have htop : s.grammar.stateName? x.top = some "if_0" := by
    have hstack := h.stack
    rw [List.replicate_succ, List.cons_append, List.map_cons] at hstack
    exact stateName?_top hstack
  have hrules := hg.block x.top htop
  obtain ⟨⟨r, m⟩, hmatch⟩ := Option.ne_none_iff_exists'.1
    (hrules.matched x.cursor h.visits.lies.placed hopen.1)
  have htaken : s.taken? x = some (r, m) := by rw [Scanner.taken?, if_pos hopen, hmatch]
  have hquiet := hrules.quiet r (Scanner.mem_rules_of_taken? htaken)
  obtain ⟨u, hu, hne, hfeed, hhides⟩ := hquiet.hides h.visits h.depth htaken size
  have hnext := Scanner.next?_of_taken? htaken
  refine ⟨_, u, ⟨h.visits.tail (.next hnext), h.depth, ?_⟩, hu, hne, hfeed, hhides⟩
  have htransition := hrules.transition x.cursor r m h.visits.lies.placed hmatch
  have hlength := congrArg List.length h.stack
  simp only [List.length_map, List.length_append, List.length_replicate, List.length_singleton]
    at hlength
  dsimp only
  rw [htransition]
  cases hd : directiveAt? x.cursor with
  | none =>
    rw [hd] at hnest
    obtain rfl := Option.some.inj hnest
    exact h.stack
  | some d =>
    rw [hd] at hnest hturns
    cases d with
    | opens =>
      obtain rfl := Option.some.inj hnest
      have hfits : ¬ x.stack.length ≥ Limits.maxStateDepth := by omega
      rw [transitionOf, Scanner.follow, if_neg hfits, List.map_cons, htop, h.stack]
      rfl
    | turns => exact absurd rfl hturns
    | closes =>
      cases n with
      | zero => cases hnest
      | succ n =>
        obtain rfl := Option.some.inj hnest
        have htall : x.stack.length > 1 := by omega
        rw [transitionOf, Scanner.follow, if_pos htall, List.map_drop, h.stack]
        rfl

/-- A run in a block hides the lines ahead that belong to the block. -/
theorem InBlock.hides (hg : DisablesBlocks s.grammar) (h : InBlock s source x n)
    (hahead : x.cursor.ahead = lines.flatten ++ after) (hlines : ∀ line ∈ lines, IsLine line)
    (hstays : Stays n (directivesFrom x.cursor lines)) {k : Nat} (hge : x.cursor.offset ≤ k)
    (hlt : k < x.cursor.offset + byteSize lines.flatten) :
    Hides (s.run source) (byteSize source) k := by
  induction hlength : x.cursor.ahead.length using Nat.strongRecOn generalizing x n lines with
  | ind length ih =>
  cases lines with
  | nil => exact absurd hlt (Nat.not_lt_of_le hge)
  | cons line lines =>
    have hsome : x.cursor.ahead ≠ [] := by
      rw [hahead]
      simp [(hlines line List.mem_cons_self).ne_nil]
    by_cases hlimit : s.limit ≤ x.progress.tokens.size
    · refine hides_of_limit h.visits h.depth hsome hlimit hge ?_
      rw [hahead, byteSize_append]
      omega
    obtain ⟨hturns, n', hnest, hroom, hrest⟩ := hstays
    obtain ⟨y, u, hblock, hu, hne, hfeed, hhides⟩ :=
      h.next hg ⟨hsome, Nat.lt_of_not_le hlimit⟩ hturns hnest hroom (byteSize source)
    by_cases hk : k < y.cursor.offset
    · exact hhides k hge hk
    obtain ⟨lines', hahead', hlines', hstays', hoffset⟩ :=
      exists_linesAhead hu hne hfeed hahead hlines hrest hroom
    exact ih _ (hlength ▸ hu.length_lt hne) hblock hahead' hlines' hstays' (Nat.le_of_not_lt hk)
      (hoffset ▸ hlt) rfl

/-! ### Openings -/

/-- At top level a run opens a disabled block. -/
structure OpensBlock (s : Scanner) (source : List Char) (x : Scanner.Point) : Prop where
  visits : s.Visits source x
  depth : x.depth = 0
  stack : x.stack.map s.grammar.stateName? = [some rootState]
  opens : ∃ y, s.next? x = some y ∧
    y.stack.map s.grammar.stateName? = [some "if_0", some rootState]

/-- What opens a block is a match of the beginning of a conditional, and behind it the run is in the
block. -/
theorem OpensBlock.exists_taken (hg : DisablesBlocks s.grammar) (h : OpensBlock s source x) :
    ∃ r m y, s.taken? x = some (r, m) ∧ IsQuiet r ∧ r.body?.any readsConditional = true ∧
      y.cursor = m.stop ∧ InBlock s source y 0 := by
  obtain ⟨y, hy, hnames⟩ := h.opens
  have hother : x.stack ≠ y.stack := by
    intro heq
    rw [← heq, h.stack] at hnames
    exact absurd hnames (by decide)
  have hin : InBlock s source y 0 :=
    ⟨h.visits.tail (.next hy), (h.visits.lies.next hy).2.1.trans h.depth, hnames⟩
  rcases Scanner.next?_eq_some hy with ⟨r, m, htaken, rfl⟩ | ⟨-, -, ch, rest, -, rfl⟩
  · have hfollow := s.follow_cases r.transition x.stack
      (Scanner.emit (s.rescanAt x.depth) x.cursor r m x.progress)
    rcases hfollow with heq | ⟨-, -, heq⟩ | ⟨state, hpush, -, heq⟩
    · exact absurd heq.symm hother
    · rw [heq, List.map_drop, h.stack] at hnames
      cases hnames
    · rw [heq, List.map_cons] at hnames
      obtain ⟨hquiet, hreads⟩ := hg.opening x.top r (Scanner.mem_rules_of_taken? htaken) state hpush
        (List.cons.inj hnames).1
      exact ⟨r, m, _, htaken, hquiet, hreads, rfl, hin⟩
  · exact absurd rfl hother

theorem directiveAt?_of_beginsConditional (h : BeginsConditional c u) (hu : c.Reads u e) :
    directiveAt? c = some .opens := by
  obtain ⟨hstart, before, between, rest, rfl, hbefore, hbetween⟩ := h
  have hblank : ∀ ch, ch = ' ' ∨ ch = '\t' → lineBlankIntervals.has ch = true := by
    rintro ch (rfl | rfl) <;> decide
  rw [directiveAt?, if_pos hstart, hu.ahead]
  refine directive?_eq_some_iff.2 ⟨before ++ '#' :: (between ++ ['i', 'f']),
    ⟨before, between, ['i', 'f'], rfl, by decide, fun ch hch => hblank ch (hbefore ch hch),
      fun ch hch => hblank ch (hbetween ch hch)⟩, rest ++ e.ahead, by simp⟩

/-- The beginning of a conditional opens a block, and a run hides it and the lines behind it that
belong to the block. -/
theorem OpensBlock.hides (hg : DisablesBlocks s.grammar) (h : OpensBlock s source x)
    (hahead : x.cursor.ahead = (line :: lines).flatten ++ after)
    (hlines : ∀ l ∈ line :: lines, IsLine l) (hstays : Stays 0 (lines.map directive?)) :
    directiveAt? x.cursor = some .opens ∧
      ∀ n, x.cursor.offset ≤ n → n < x.cursor.offset + byteSize (line :: lines).flatten →
        Hides (s.run source) (byteSize source) n := by
  obtain ⟨r, m, y, htaken, hquiet, hbody, hy, hin⟩ := h.exists_taken hg
  obtain ⟨p, hp, hreads⟩ := (Option.any_eq_true _ _).1 hbody
  obtain ⟨u, hu, hbegins⟩ :=
    beginsConditional_of_leads hreads (leads_of_taken? h.visits.lies htaken hp)
  obtain ⟨v, hv, hne, hfeed, hhides⟩ :=
    hquiet.hides h.visits h.depth htaken (byteSize source)
  rw [← hy] at hv hhides
  refine ⟨directiveAt?_of_beginsConditional hbegins hu, fun n hge hlt => ?_⟩
  by_cases hn : n < y.cursor.offset
  · exact hhides n hge hn
  obtain ⟨lines', hahead', hlines', hstays', hoffset⟩ :=
    exists_linesAhead hv hne hfeed hahead hlines hstays (by decide)
  exact hin.hides hg hahead' hlines' hstays' (Nat.le_of_not_lt hn) (hoffset ▸ hlt)

/-! ### Tokens -/

/-- Whether a run opens a block at once. -/
def opensAtOnce (g : Grammar) (prefs : LexicalPreferences) (source : List Char) : Bool :=
  let s : Scanner := ⟨g, prefs.tokenLimit, prefs.logUnmatched⟩
  (s.origin source).stack.map g.stateName? == [some rootState] &&
    (s.next? (s.origin source)).any fun y =>
      y.stack.map g.stateName? == [some "if_0", some rootState]

/-- Whether a run opens a block at once and has a byte outside of comments. -/
def shows (g : Grammar) (prefs : LexicalPreferences) (source : List Char) (n : Nat) : Bool :=
  opensAtOnce g prefs source &&
    (Scanner.run ⟨g, prefs.tokenLimit, prefs.logUnmatched⟩ source).tokens.toList.all fun t =>
      decide (t.start ≤ n ∧ n < t.stop → t.category ∉ hiddenCategories)

end CFamily

end Highlighting
