import Highlighting.Language.CFamily
import Highlighting.Proofs.Language.DeclaredNames
import Highlighting.Proofs.Scan.Points
import Highlighting.Proofs.Scan.RuleShape

/-!
# State stacks of C and C++

A scan of a source in C or C++ is at top level, in a preprocessor line, in a string literal or in
some levels of disabled blocks, and its state stack says which (`CFamily.IsMainStack`).  The scan of
a group stays in `statements`: what pushes a state there reads a `#` or a quote, and a group that is
scanned anew has neither.

`CFamily.keepsStacks` computes from the rules of a grammar that this is so, that the states of lines
and blocks leave no character unmatched, and how the rules of `string` read line feeds.  Points of a
run are then shaped (`CFamily.visits_isShaped`) and behave as they should
(`CFamily.wellStacked_of_keepsStacks`).
-/

namespace Highlighting

/-- Whether the rules of a state pass a test. -/
def Grammar.passIn (g : Grammar) (name : String) (test : List CompiledRule → Bool) : Bool :=
  g.states.all fun st => st.name != name || test st.rules

theorem Grammar.of_passIn {g : Grammar} {name : String} {test : List CompiledRule → Bool}
    (h : g.passIn name test = true) {state : Nat} (hname : g.stateName? state = some name) :
    test (g.rules state) = true := by
  obtain ⟨st, hst, rfl⟩ := Option.map_eq_some_iff.1 hname
  have hpass := List.all_eq_true.1 h st (List.mem_of_getElem? hst)
  have hrules : g.rules state = st.rules := by rw [Grammar.rules, hst]
  rw [bne_self_eq_false, Bool.false_or] at hpass
  rwa [hrules]

/-- A part that is scanned anew is not empty. -/
theorem CompiledRule.lt_of_mem_partsFrom {gs : List (GroupAction Nat × Option (Nat × Nat))}
    {stop place : Nat} {x : MatchPart} (hx : x ∈ partsFrom stop place gs)
    (hstates : x.action.states ≠ []) : x.start < x.stop := by
  induction gs generalizing place with
  | nil =>
    obtain rfl := List.mem_singleton.1 hx
    exact absurd rfl hstates
  | cons g gs ih =>
    obtain ⟨action, _ | ⟨first, last⟩⟩ := g
    · exact ih hx
    rw [partsFrom] at hx
    split at hx
    · next h =>
      simp only [List.mem_cons] at hx
      rcases hx with rfl | rfl | hx
      · exact absurd rfl hstates
      · exact h.1
      · exact ih hx
    · exact ih hx

namespace CFamily

/-- The characters that what pushes a state reads. -/
def marks : List Char := ['#', '"']

/-- The state stacks of a source, the top first. -/
inductive IsMainStack : List String → Prop where
  | root : IsMainStack [rootState]
  | line : IsMainStack ["macro", rootState]
  | string : IsMainStack ["string", rootState]
  | disabled (n : Nat) : IsMainStack (List.replicate (n + 1) "if_0" ++ [rootState])

/-- A conditional begins at the start of a line: its mark, with blanks on both sides, and `if`. -/
def BeginsConditional (c : Cursor) (u : List Char) : Prop :=
  Look.lineStart.holds c = true ∧ ∃ before between rest,
    u = before ++ ('#' :: (between ++ ('i' :: 'f' :: rest))) ∧
      (∀ ch ∈ before, ch = ' ' ∨ ch = '\t') ∧ ∀ ch ∈ between, ch = ' ' ∨ ch = '\t'

/-- What is true of the state stack at a point of a run. -/
structure WellStacked (s : Scanner) (x : Scanner.Point) : Prop where
  /-- the stack of the scan of the source -/
  main : x.depth = 0 → ∃ names, IsMainStack names ∧
    x.stack.map s.grammar.stateName? = names.map some
  /-- the stack of a scan of a group -/
  sub : 0 < x.depth → x.stack.map s.grammar.stateName? = [some "statements"]
  /-- a push that is ignored is that of a conditional inside of a disabled block -/
  ignored : ∀ r m state y, s.taken? x = some (r, m) → r.transition = .push state →
    s.next? x = some y → y.stack ≠ state :: x.stack →
      y.stack = x.stack ∧ s.grammar.stateName? x.top = some "if_0" ∧
        ∃ u, x.cursor.Reads u y.cursor ∧ BeginsConditional x.cursor u
  /-- a line or a block leaves no character unmatched -/
  matched : ∀ name ∈ ["macro", "string", "if_0"], s.grammar.stateName? x.top = some name →
    s.IsOpen x → s.taken? x ≠ none
  /-- in a string literal a line feed is read as an escape, behind a backslash, or the literal is
  left -/
  lineFeeds : s.grammar.stateName? x.top = some "string" → ∀ r m u, s.taken? x = some (r, m) →
    x.cursor.Reads u m.stop → '\n' ∈ u → ∃ y, s.next? x = some y ∧
      ((r.source = stringEscape ∧ (u = ['\\', '\n'] ∨ u = ['\\', '\r', '\n']) ∧
          y.stack = x.stack) ∨
        (u = ['\n'] ∧ y.stack.map s.grammar.stateName? = [some rootState]))
  /-- a string literal is left behind a quote or a line feed only -/
  leaves : s.grammar.stateName? x.top = some "string" → ∀ y, s.next? x = some y →
    y.stack = x.stack ∨ (y.stack.map s.grammar.stateName? = [some rootState] ∧
      (x.cursor.Reads ['"'] y.cursor ∨ x.cursor.Reads ['\n'] y.cursor))

/-! ### What is computed of the rules -/

/-- Whether a rule scans groups anew in `statements` only, and only groups without marks. -/
def scansStatements (g : Grammar) (r : CompiledRule) : Bool :=
  r.action.states.isEmpty ||
    match r.action, r.groupRoutes? with
    | .groups actions, some qs =>
      actions.length == qs.length && (actions.zip qs).all fun x =>
        x.1.states.all fun state => g.stateName? state == some "statements" && x.2.avoids marks
    | _, _ => false

/-- Whether a rule of the root state keeps to the stacks. -/
def keepsRoot (g : Grammar) (r : CompiledRule) : Bool :=
  scansStatements g r && r.transition.states.all fun state =>
    (g.stateName? state).any ["macro", "string", "if_0"].contains

/-- Whether a rule of `statements` changes the stack only if it reads a mark. -/
def keepsStatements (r : CompiledRule) : Bool :=
  r.transition == .stay || r.body?.any (·.needs marks)

/-- Whether a route reads the beginning of a conditional. -/
def readsConditional : Route → Bool
  | .seq (.look _ .lineStart) (.seq p (.seq (.text ['#']) (.seq q (.seq (.text ['i', 'f']) _)))) =>
    p.isRun lineBlankIntervals && q.isRun lineBlankIntervals
  | _ => false

/-- Whether a rule of a disabled block keeps to the stacks. -/
def keepsDisabled (g : Grammar) (r : CompiledRule) : Bool :=
  (r.transition.states.isEmpty || r.body?.any readsConditional) &&
    r.transition.states.all fun state => g.stateName? state == some "if_0"

/-- Whether a rule of a string literal reads line feeds in escapes or alone, and leaves the literal
behind a quote or a line feed. -/
def keepsString (r : CompiledRule) : Bool :=
  r.body?.any fun p =>
    (p.wordsWith? '\n').any (fun ws => ws.isEmpty ||
      (ws == [['\n']] && r.transition == .pop) ||
      (ws.all [['\\', '\n'], ['\\', '\r', '\n']].contains && r.transition == .stay &&
        r.source == stringEscape)) &&
    (r.transition == .stay || p.spellings? == some [['"']] || p.spellings? == some [['\n']])

/-- What is computed of a grammar. -/
def keepsStacks (g : Grammar) : Bool :=
  g.stateName? g.root == some rootState && g.passIn rootState (·.all (keepsRoot g)) &&
    g.passIn "statements" (·.all keepsStatements) && g.passIn "if_0" (·.all (keepsDisabled g)) &&
    g.passIn "string" (·.all keepsString) &&
    (["macro", "string"].all fun name => g.passIn name (·.all (·.transition.states.isEmpty))) &&
    (["statements", "macro", "string", "if_0"].all fun name =>
      g.passIn name (·.all (·.action.states.isEmpty))) &&
    ["macro", "string", "if_0"].all fun name => g.passIn name CompiledRule.takeAll

/-- What is known of a grammar that keeps to the stacks, state by state. -/
structure KeepsStacks (g : Grammar) : Prop where
  root : g.stateName? g.root = some rootState
  inRoot : ∀ state, g.stateName? state = some rootState → ∀ r ∈ g.rules state, keepsRoot g r = true
  inStatements : ∀ state, g.stateName? state = some "statements" → ∀ r ∈ g.rules state,
    keepsStatements r = true
  inDisabled : ∀ state, g.stateName? state = some "if_0" → ∀ r ∈ g.rules state,
    keepsDisabled g r = true
  inString : ∀ state, g.stateName? state = some "string" → ∀ r ∈ g.rules state,
    keepsString r = true
  /-- lines push no state -/
  lines : ∀ name ∈ ["macro", "string"], ∀ state, g.stateName? state = some name →
    ∀ r ∈ g.rules state, r.transition.states = []
  /-- only the root state has groups scanned anew -/
  unnested : ∀ name ∈ ["statements", "macro", "string", "if_0"], ∀ state,
    g.stateName? state = some name → ∀ r ∈ g.rules state, r.action.states = []
  takesAll : ∀ name ∈ ["macro", "string", "if_0"], ∀ state, g.stateName? state = some name →
    CompiledRule.takeAll (g.rules state) = true

theorem KeepsStacks.of_keepsStacks {g : Grammar} (h : keepsStacks g = true) : KeepsStacks g := by
  have hall : ∀ {name : String} {test : CompiledRule → Bool}, g.passIn name (·.all test) = true →
      ∀ state, g.stateName? state = some name → ∀ r ∈ g.rules state, test r = true :=
    fun h state hstate => List.all_eq_true.1 (Grammar.of_passIn h hstate)
  simp only [keepsStacks, Bool.and_eq_true, beq_iff_eq] at h
  obtain ⟨⟨⟨⟨⟨⟨⟨hroot, hrules⟩, hinner⟩, hdisabled⟩, hstring⟩, hlines⟩, hunnested⟩, htakes⟩ := h
  refine ⟨hroot, hall hrules, hall hinner, hall hdisabled, hall hstring, ?_, ?_, ?_⟩
  · intro name hname state hstate r hr
    exact List.isEmpty_iff.1 (hall (List.all_eq_true.1 hlines name hname) state hstate r hr)
  · intro name hname state hstate r hr
    exact List.isEmpty_iff.1 (hall (List.all_eq_true.1 hunnested name hname) state hstate r hr)
  · intro name hname state hstate
    exact Grammar.of_passIn (List.all_eq_true.1 htakes name hname) hstate

/-! ### What a rule does -/

variable {g : Grammar} {r : CompiledRule} {m : RuleMatch} {c d : Cursor} {state : Nat}

theorem eq_of_lineBlank {ch : Char} (h : lineBlankIntervals.has ch = true) :
    ch = ' ' ∨ ch = '\t' := by
  simp only [lineBlankIntervals, Intervals.has, List.any_cons, List.any_nil, Bool.or_false,
    Bool.or_eq_true, Bool.and_eq_true, decide_eq_true_eq] at h
  rcases h with h | h
  · exact .inr (Char.toNat_inj.1 (Nat.le_antisymm h.2 h.1))
  · exact .inl (Char.toNat_inj.1 (Nat.le_antisymm h.2 h.1))

/-- A rule that pushes a state in a disabled block reads the beginning of a conditional. -/
theorem beginsConditional_of_leads {p : Route} (hp : readsConditional p = true)
    (h : p.Leads c d) : ∃ u, c.Reads u d ∧ BeginsConditional c u := by
  unfold readsConditional at hp
  split at hp
  case h_2 => cases hp
  next p q rest =>
  rw [Bool.and_eq_true] at hp
  obtain ⟨c', ⟨hstart, rfl⟩, x, hbefore, y, hmark, z, hbetween, e, hword, hrest⟩ := h
  obtain ⟨before, hreads, hall⟩ := hbefore.reads_run hp.1
  obtain ⟨between, hreads', hall'⟩ := hbetween.reads_run hp.2
  obtain ⟨w, hw⟩ := hrest.reads
  have hwords := hreads'.trans (Cursor.Reads.trans hword hw)
  have hread := hreads.trans (Cursor.Reads.trans hmark hwords)
  exact ⟨_, hread, hstart, before, between, w, rfl, fun ch hch => eq_of_lineBlank (hall ch hch),
    fun ch hch => eq_of_lineBlank (hall' ch hch)⟩

/-- What is scanned anew is scanned in `statements` and has no marks. -/
theorem of_scansStatements (h : scansStatements g r = true) (hc : c.Placed)
    (hm : r.matchAt? c = some m) {part : MatchPart} (hpart : part ∈ r.parts c m)
    (hstate : state ∈ part.action.states) :
    g.stateName? state = some "statements" ∧
      ∀ ch ∈ Scanner.textBetween c part.start part.stop, marks.contains ch = false := by
  have hmem := CompiledRule.states_of_mem_parts hpart state hstate
  rw [scansStatements, Bool.or_eq_true] at h
  rcases h with h | h
  · rw [List.isEmpty_iff.1 h] at hmem
    cases hmem
  split at h
  case h_2 => cases h
  next actions qs haction hqs =>
  rw [Bool.and_eq_true, beq_iff_eq] at h
  obtain ⟨hlength, hall⟩ := h
  have hlt : part.start < part.stop := by
    rw [CompiledRule.parts, haction] at hpart
    exact CompiledRule.lt_of_mem_partsFrom hpart (List.ne_nil_of_mem hstate)
  obtain ⟨before, q, behind, y, e, hzip, hbefore, hq, -, hstart, hstop⟩ :=
    CompiledRule.isGroup_of_mem_parts hqs haction hlength hc hm hpart hlt
  have hgroup := List.all_eq_true.1 hall (part.action, q) (by simp [hzip])
  have hkeeps := List.all_eq_true.1 hgroup state hstate
  rw [Bool.and_eq_true, beq_iff_eq] at hkeeps
  obtain ⟨v, hv⟩ := hbefore.reaches
  obtain ⟨w, hw, hunmarked⟩ := hq.reads_avoiding hkeeps.2
  rw [hstart, hstop, Scanner.textBetween_reads hv hw]
  exact ⟨hkeeps.1, hunmarked⟩

/-! ### The shape of the stacks -/

/-- The state stack at a point, and that a text that is scanned anew has no marks. -/
structure IsShaped (g : Grammar) (x : Scanner.Point) : Prop where
  main : x.depth = 0 → ∃ names, IsMainStack names ∧ x.stack.map g.stateName? = names.map some
  sub : 0 < x.depth → x.stack.map g.stateName? = [some "statements"]
  unmarked : 0 < x.depth → ∀ ch ∈ x.text, marks.contains ch = false

theorem IsMainStack.drop {names : List String} (h : IsMainStack names)
    (hlength : 1 < names.length) : IsMainStack (names.drop 1) := by
  cases h with
  | root => exact absurd hlength (Nat.lt_irrefl 1)
  | line | string => exact .root
  | disabled n =>
    cases n with
    | zero => exact .root
    | succ n => exact .disabled n

/-- The name on top of a stack of a source. -/
theorem IsMainStack.exists_top {names : List String} (h : IsMainStack names) :
    ∃ name ∈ [rootState, "macro", "string", "if_0"], ∃ rest, names = name :: rest := by
  cases h with
  | root | line | string => exact ⟨_, by decide, _, rfl⟩
  | disabled n => exact ⟨"if_0", by decide, _, rfl⟩

/-- What is pushed onto a stack leaves it one of a source. -/
theorem IsMainStack.push {names : List String} {stack : List Nat} (h : IsMainStack names)
    (hk : KeepsStacks g) (hstack : stack.map g.stateName? = names.map some)
    (hr : r ∈ g.rules (stack.headD 0)) (hpush : r.transition = .push state) :
    ∃ name, g.stateName? state = some name ∧ IsMainStack (name :: names) := by
  have hmem : state ∈ r.transition.states := by rw [hpush]; exact List.mem_singleton_self state
  cases h with
  | root =>
    obtain ⟨a, as, rfl, ha, -⟩ := List.map_eq_cons_iff.1 hstack
    have hkeeps := hk.inRoot a ha r hr
    rw [keepsRoot, Bool.and_eq_true] at hkeeps
    obtain ⟨name, hname, hpushed⟩ :=
      (Option.any_eq_true _ _).1 (List.all_eq_true.1 hkeeps.2 state hmem)
    refine ⟨name, hname, ?_⟩
    simp only [List.contains_iff_mem, List.mem_cons, List.not_mem_nil, or_false] at hpushed
    rcases hpushed with rfl | rfl | rfl
    · exact .line
    · exact .string
    · exact .disabled 0
  | line =>
    obtain ⟨a, as, rfl, ha, -⟩ := List.map_eq_cons_iff.1 hstack
    exact absurd hmem (hk.lines "macro" (by decide) a ha r hr ▸ List.not_mem_nil)
  | string =>
    obtain ⟨a, as, rfl, ha, -⟩ := List.map_eq_cons_iff.1 hstack
    exact absurd hmem (hk.lines "string" (by decide) a ha r hr ▸ List.not_mem_nil)
  | disabled n =>
    obtain ⟨a, as, rfl, ha, -⟩ := List.map_eq_cons_iff.1 hstack
    have hkeeps := hk.inDisabled a ha r hr
    rw [keepsDisabled, Bool.and_eq_true] at hkeeps
    exact ⟨"if_0", beq_iff_eq.1 (List.all_eq_true.1 hkeeps.2 state hmem), .disabled (n + 1)⟩

section Run

variable {s : Scanner} {x y : Scanner.Point} {source : List Char} {names : List String}

/-- Whatever a rule does to a stack of a source, it stays one. -/
theorem IsMainStack.follow (h : IsMainStack names) (hk : KeepsStacks s.grammar)
    {stack : List Nat} (hstack : stack.map s.grammar.stateName? = names.map some)
    (hr : r ∈ s.grammar.rules (stack.headD 0)) (p : Progress) :
    ∃ names', IsMainStack names' ∧
      (s.follow r.transition stack p).1.map s.grammar.stateName? = names'.map some := by
  rcases s.follow_cases r.transition stack p with heq | ⟨-, hlength, heq⟩ | ⟨state, hpush, -, heq⟩
  · exact ⟨names, h, by rw [heq, hstack]⟩
  · have hlengths := congrArg List.length hstack
    rw [List.length_map, List.length_map] at hlengths
    refine ⟨names.drop 1, h.drop (hlengths ▸ hlength), ?_⟩
    rw [heq, List.map_drop, List.map_drop, hstack]
  · obtain ⟨name, hname, hmain⟩ := h.push hk hstack hr hpush
    refine ⟨name :: names, hmain, ?_⟩
    rw [heq, List.map_cons, List.map_cons, hname, hstack]

/-- What a match reads at a point is part of the text of the scan. -/
theorem mem_text_of_reads (hlies : x.Lies source) {u : List Char} (hu : x.cursor.Reads u d)
    {ch : Char} (hch : ch ∈ u) : ch ∈ x.text := by
  obtain ⟨v, hv⟩ := hlies.cursor
  have htext : x.text = v ++ x.cursor.ahead := hv.ahead
  rw [htext, hu.ahead]
  simp [hch]

theorem leads_of_taken? (hlies : x.Lies source) (htaken : s.taken? x = some (r, m)) {p : Route}
    (hp : r.body? = some p) : p.Leads x.cursor m.stop :=
  CompiledRule.leads_of_body? hp hlies.placed (Scanner.matchAt?_of_taken? htaken)

theorem stateName?_top {name : Option String} {rest : List (Option String)}
    (h : x.stack.map g.stateName? = name :: rest) : g.stateName? x.top = name := by
  obtain ⟨a, as, hx, ha, -⟩ := List.map_eq_cons_iff.1 h
  rw [Scanner.Point.top, hx, List.headD_cons, ha]

/-- The name of the state on top. -/
theorem IsShaped.exists_top (h : IsShaped s.grammar x) :
    (x.depth = 0 ∧ ∃ name ∈ [rootState, "macro", "string", "if_0"],
      s.grammar.stateName? x.top = some name) ∨
    (0 < x.depth ∧ s.grammar.stateName? x.top = some "statements") := by
  rcases Nat.eq_zero_or_pos x.depth with hdepth | hdepth
  · obtain ⟨names, hnames, hstack⟩ := h.main hdepth
    obtain ⟨name, hname, rest, rfl⟩ := hnames.exists_top
    exact .inl ⟨hdepth, name, hname, stateName?_top hstack⟩
  · exact .inr ⟨hdepth, stateName?_top (h.sub hdepth)⟩

/-- In the scan of a group the stack stays as it is. -/
theorem IsShaped.transition_eq_stay (h : IsShaped s.grammar x) (hk : KeepsStacks s.grammar)
    (hlies : x.Lies source) (hdepth : 0 < x.depth) (htaken : s.taken? x = some (r, m)) :
    r.transition = .stay := by
  obtain ⟨-, htop⟩ := h.exists_top.resolve_left fun hmain => Nat.ne_of_gt hdepth hmain.1
  have hkeeps := hk.inStatements x.top htop r (Scanner.mem_rules_of_taken? htaken)
  rw [keepsStatements, Bool.or_eq_true, beq_iff_eq] at hkeeps
  rcases hkeeps with hstay | hneeds
  · exact hstay
  obtain ⟨p, hp, hneeds⟩ := (Option.any_eq_true _ _).1 hneeds
  obtain ⟨u, hu, ch, hch, hmark⟩ := (leads_of_taken? hlies htaken hp).reads_needed hneeds
  have hclean := h.unmarked hdepth ch (mem_text_of_reads hlies hu hch)
  exact Bool.noConfusion (hmark.symm.trans hclean)

theorem IsShaped.next (h : IsShaped s.grammar x) (hk : KeepsStacks s.grammar)
    (hlies : x.Lies source) (hy : s.next? x = some y) : IsShaped s.grammar y := by
  rcases Scanner.next?_eq_some hy with ⟨r, m, htaken, rfl⟩ | ⟨-, -, ch, rest, -, rfl⟩
  · refine ⟨fun hdepth => ?_, fun hdepth => ?_, h.unmarked⟩
    · obtain ⟨names, hnames, hstack⟩ := h.main hdepth
      exact hnames.follow hk hstack (Scanner.mem_rules_of_taken? htaken) _
    · have hstay := h.transition_eq_stay hk hlies hdepth htaken
      dsimp only
      rw [hstay]
      exact h.sub hdepth
  · exact ⟨h.main, h.sub, h.unmarked⟩

theorem IsShaped.inner (h : IsShaped s.grammar x) (hk : KeepsStacks s.grammar)
    (hlies : x.Lies source) (hy : y ∈ s.inner x) : IsShaped s.grammar y := by
  obtain ⟨-, r, m, before, part, after, state, hstate, htaken, hparts, rfl⟩ := Scanner.mem_inner hy
  have hr := Scanner.mem_rules_of_taken? htaken
  have hpart : part ∈ r.parts x.cursor m := by simp [hparts]
  have hstates := List.ne_nil_of_mem (CompiledRule.states_of_mem_parts hpart state hstate)
  have hroot : s.grammar.stateName? x.top = some rootState := by
    rcases h.exists_top with ⟨-, name, hname, htop⟩ | ⟨-, htop⟩
    · rcases List.mem_cons.1 hname with rfl | hname
      · exact htop
      · exact absurd (hk.unnested name (List.mem_cons_of_mem _ hname) x.top htop r hr) hstates
    · exact absurd (hk.unnested "statements" (by decide) x.top htop r hr) hstates
  have hkeeps := hk.inRoot x.top hroot r hr
  rw [keepsRoot, Bool.and_eq_true] at hkeeps
  have hmatch := Scanner.matchAt?_of_taken? htaken
  obtain ⟨hname, hunmarked⟩ := of_scansStatements hkeeps.1 hlies.placed hmatch hpart hstate
  refine ⟨fun hdepth => absurd hdepth (Nat.succ_ne_zero _), fun _ => ?_, fun _ => hunmarked⟩
  rw [Scanner.Point.start, List.map_singleton, hname]

theorem visits_isShaped (hk : KeepsStacks s.grammar) (h : s.Visits source x) :
    IsShaped s.grammar x := by
  induction h with
  | refl =>
    refine ⟨fun _ => ⟨[rootState], .root, ?_⟩, fun h => absurd h (Nat.lt_irrefl 0),
      fun h => absurd h (Nat.lt_irrefl 0)⟩
    rw [Scanner.origin, Scanner.Point.start, List.map_singleton, hk.root]
    rfl
  | tail hx hy ih =>
    have hlies := Scanner.Visits.lies hx
    cases hy with
    | next hy => exact ih.next hk hlies hy
    | inner hy => exact ih.inner hk hlies hy

/-! ### What the shape of the stacks says -/

theorem IsMainStack.exists_top_of_length (h : IsMainStack names) (hlength : 2 < names.length) :
    ∃ rest, names = "if_0" :: rest := by
  cases h with
  | root | line | string => exact absurd hlength (by decide)
  | disabled n => exact ⟨_, rfl⟩

/-- Only a disabled block has a stack that is full. -/
theorem IsShaped.top_of_full (h : IsShaped s.grammar x)
    (hfull : Limits.maxStateDepth ≤ x.stack.length) :
    s.grammar.stateName? x.top = some "if_0" := by
  have hlong : 2 < x.stack.length := Nat.lt_of_lt_of_le (by decide) hfull
  rcases Nat.eq_zero_or_pos x.depth with hdepth | hdepth
  · obtain ⟨names, hnames, hstack⟩ := h.main hdepth
    have hlengths := congrArg List.length hstack
    rw [List.length_map, List.length_map] at hlengths
    obtain ⟨rest, rfl⟩ := hnames.exists_top_of_length (hlengths ▸ hlong)
    exact stateName?_top hstack
  · have hlengths := congrArg List.length (h.sub hdepth)
    rw [List.length_map, List.length_singleton] at hlengths
    omega

/-- A preprocessor line or a string literal is entered from the root state. -/
theorem IsShaped.stack_of_line (h : IsShaped s.grammar x) {name : String}
    (hname : name ∈ ["macro", "string"]) (htop : s.grammar.stateName? x.top = some name) :
    x.stack.map s.grammar.stateName? = [some name, some rootState] := by
  rcases Nat.eq_zero_or_pos x.depth with hdepth | hdepth
  · obtain ⟨names, hnames, hstack⟩ := h.main hdepth
    rw [hstack]
    cases hnames with
    | line | string =>
      obtain rfl := Option.some.inj ((stateName?_top hstack).symm.trans htop)
      rfl
    | root | disabled n =>
      obtain rfl := Option.some.inj ((stateName?_top hstack).symm.trans htop)
      exact absurd hname (by decide)
  · obtain ⟨-, hstatements⟩ := h.exists_top.resolve_left fun hmain => Nat.ne_of_gt hdepth hmain.1
    obtain rfl := Option.some.inj (hstatements.symm.trans htop)
    exact absurd hname (by decide)

/-- A preprocessor line or a string literal is left for the root state. -/
theorem IsShaped.follow_pop_line (h : IsShaped s.grammar x) {name : String}
    (hname : name ∈ ["macro", "string"]) (htop : s.grammar.stateName? x.top = some name)
    (p : Progress) : (s.follow .pop x.stack p).1.map s.grammar.stateName? = [some rootState] := by
  have hstack := h.stack_of_line hname htop
  obtain ⟨a, as, hx, -, has⟩ := List.map_eq_cons_iff.1 hstack
  obtain ⟨b, bs, rfl, hb, hbs⟩ := List.map_eq_cons_iff.1 has
  obtain rfl := List.map_eq_nil_iff.1 hbs
  simp [Scanner.follow, hx, hb]

theorem IsShaped.ignored (h : IsShaped s.grammar x) (hk : KeepsStacks s.grammar)
    (hlies : x.Lies source) (htaken : s.taken? x = some (r, m)) (hpush : r.transition = .push state)
    (hy : s.next? x = some y) (hlost : y.stack ≠ state :: x.stack) :
    y.stack = x.stack ∧ s.grammar.stateName? x.top = some "if_0" ∧
      ∃ u, x.cursor.Reads u y.cursor ∧ BeginsConditional x.cursor u := by
  obtain rfl := Option.some.inj (hy.symm.trans (Scanner.next?_of_taken? htaken))
  have hfull : Limits.maxStateDepth ≤ x.stack.length := by
    by_contra hroom
    exact hlost (by simp [hpush, Scanner.follow, hroom])
  have htop := h.top_of_full hfull
  have hkeeps := hk.inDisabled x.top htop r (Scanner.mem_rules_of_taken? htaken)
  rw [keepsDisabled, hpush, Bool.and_eq_true] at hkeeps
  obtain ⟨p, hp, hreads⟩ := (Option.any_eq_true _ _).1 hkeeps.1
  exact ⟨by simp [hpush, Scanner.follow, hfull], htop,
    beginsConditional_of_leads hreads (leads_of_taken? hlies htaken hp)⟩

theorem taken?_ne_none (hk : KeepsStacks s.grammar) (hlies : x.Lies source) {name : String}
    (hname : name ∈ ["macro", "string", "if_0"])
    (htop : s.grammar.stateName? x.top = some name) (hopen : s.IsOpen x) :
    s.taken? x ≠ none := by
  rw [Scanner.taken?, if_pos hopen]
  exact Grammar.firstMatch?_of_takeAll (fun _ hr => hr) (hk.takesAll name hname x.top htop)
    hlies.placed hopen.1

theorem IsShaped.lineFeeds (h : IsShaped s.grammar x) (hk : KeepsStacks s.grammar)
    (hlies : x.Lies source) (htop : s.grammar.stateName? x.top = some "string") {u : List Char}
    (htaken : s.taken? x = some (r, m)) (hu : x.cursor.Reads u m.stop) (hfeed : '\n' ∈ u) :
    ∃ y, s.next? x = some y ∧
      ((r.source = stringEscape ∧ (u = ['\\', '\n'] ∨ u = ['\\', '\r', '\n']) ∧
          y.stack = x.stack) ∨
        (u = ['\n'] ∧ y.stack.map s.grammar.stateName? = [some rootState])) := by
  have hkeeps := hk.inString x.top htop r (Scanner.mem_rules_of_taken? htaken)
  obtain ⟨p, hp, hkeeps⟩ := (Option.any_eq_true _ _).1 hkeeps
  obtain ⟨ws, hws, hwords⟩ := (Option.any_eq_true _ _).1 (Bool.and_eq_true_iff.1 hkeeps).1
  have hmem : u ∈ ws := (leads_of_taken? hlies htaken hp).mem_wordsWith hu hfeed hws
  refine ⟨_, Scanner.next?_of_taken? htaken, ?_⟩
  dsimp only
  simp only [Bool.or_eq_true, Bool.and_eq_true, beq_iff_eq] at hwords
  rcases hwords with (hnil | ⟨rfl, hpop⟩) | ⟨⟨hescapes, hstay⟩, hsource⟩
  · rw [List.isEmpty_iff.1 hnil] at hmem
    cases hmem
  · refine .inr ⟨List.mem_singleton.1 hmem, ?_⟩
    rw [hpop]
    exact h.follow_pop_line (by decide) htop _
  · have hescape := List.contains_iff_mem.1 (List.all_eq_true.1 hescapes u hmem)
    rw [hstay]
    exact .inl ⟨hsource, by simpa using hescape, rfl⟩

theorem IsShaped.leaves (h : IsShaped s.grammar x) (hk : KeepsStacks s.grammar)
    (hlies : x.Lies source) (htop : s.grammar.stateName? x.top = some "string")
    (hy : s.next? x = some y) :
    y.stack = x.stack ∨ (y.stack.map s.grammar.stateName? = [some rootState] ∧
      (x.cursor.Reads ['"'] y.cursor ∨ x.cursor.Reads ['\n'] y.cursor)) := by
  rcases Scanner.next?_eq_some hy with ⟨r, m, htaken, rfl⟩ | ⟨-, -, ch, rest, -, rfl⟩
  · have hr := Scanner.mem_rules_of_taken? htaken
    have hline := hk.lines "string" (by decide) x.top htop r hr
    obtain ⟨p, hp, hkeeps⟩ := (Option.any_eq_true _ _).1 (hk.inString x.top htop r hr)
    have hwords := (Bool.and_eq_true_iff.1 hkeeps).2
    simp only [Bool.or_eq_true, beq_iff_eq] at hwords
    have hleads := leads_of_taken? hlies htaken hp
    dsimp only
    cases htransition : r.transition with
    | stay => exact .inl rfl
    | push state =>
      rw [htransition] at hline
      cases hline
    | pop =>
      refine .inr ⟨h.follow_pop_line (by decide) htop _, ?_⟩
      rw [htransition] at hwords
      rcases hwords with (hwords | hwords) | hwords
      · cases hwords
      · obtain ⟨w, hw, hread⟩ := hleads.spelling hwords
        exact .inl (List.mem_singleton.1 hw ▸ hread)
      · obtain ⟨w, hw, hread⟩ := hleads.spelling hwords
        exact .inr (List.mem_singleton.1 hw ▸ hread)
  · exact .inl rfl

/-- At each point of a run of a grammar that keeps to the stacks, the stack is as it should be. -/
theorem wellStacked_of_keepsStacks (hkeeps : keepsStacks s.grammar = true)
    (h : s.Visits source x) : WellStacked s x := by
  have hk := KeepsStacks.of_keepsStacks hkeeps
  have hlies := h.lies
  have hshaped := visits_isShaped hk h
  exact ⟨hshaped.main, hshaped.sub, fun _ _ _ _ => hshaped.ignored hk hlies,
    fun _ => taken?_ne_none hk hlies, fun htop _ _ _ => hshaped.lineFeeds hk hlies htop,
    fun htop _ => hshaped.leaves hk hlies htop⟩

end Run

end CFamily

end Highlighting
