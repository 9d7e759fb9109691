import Highlighting.Proofs.Language.Declarator
import Highlighting.Proofs.Pattern.Run

/-!
# Words that are left to identifiers

At a word the rules of the C family match nowhere (`CompiledRule.refuses`), but for the rule of
identifiers, which takes the word, and the declarator, which may begin with it.  An extension whose
words go into such states reclassifies words: it takes each of them in place of the identifier, and
it crosses what a declarator shadows (`Extension.Extends.reclassifies`).

What is asked of the two grammars is computed from their rules.
-/

namespace Highlighting

/-- The characters that begin an identifier. -/
def identifierFirst : CharSet :=
  ⟨[('A'.toNat, 'Z'.toNat), ('_'.toNat, '_'.toNat), ('a'.toNat, 'z'.toNat)]⟩

/-- The characters that go on in an identifier. -/
def identifierPart : CharSet := .ofRanges wordIntervals

namespace CompiledRule

/-- Whether a rule matches nowhere at one of some words. -/
def refuses (words : List String) (r : CompiledRule) : Bool :=
  r.body?.any fun p => words.all fun w => p.refuses w.toList

/-- Whether a rule takes identifiers. -/
def isIdentifier (r : CompiledRule) : Bool :=
  r.atStart = .runAtStart identifierFirst identifierPart ∧
    r.inContext = .runInContext identifierFirst identifierPart ∧
    r.action.wantsGroups = false ∧ r.transition = .stay

variable {r : CompiledRule} {c d : Cursor} {run : List Char} {words : List String}

theorem matchAt?_of_refuses (h : r.refuses words = true) (hc : c.Placed) (hrun : c.Reads run d)
    (hword : String.ofList run ∈ words) : r.matchAt? c = none := by
  obtain ⟨p, hp, hall⟩ := (Option.any_eq_true _ _).1 h
  have hrefuses := List.all_eq_true.1 hall _ hword
  rw [String.toList_ofList] at hrefuses
  rw [Option.eq_none_iff_forall_ne_some]
  intro m hm
  exact Route.not_leads_of_refuses hrefuses hrun.ahead (leads_of_body? hp hc hm)

theorem isSingle_of_isIdentifier (h : r.isIdentifier = true) : r.IsSingle := by
  obtain ⟨-, -, hgroups, hstay⟩ := of_decide_eq_true h
  exact ⟨hgroups, hstay⟩

/-- The rule of identifiers takes a whole word. -/
theorem matchAt?_of_isIdentifier (h : r.isIdentifier = true) (hc : c.Placed)
    (hrun : c.ReadsWord run d) (hfirst : run.head?.any identifierFirst.has = true) :
    r.matchAt? c = some ⟨d, []⟩ := by
  obtain ⟨hstart, hcontext, hgroups, -⟩ := of_decide_eq_true h
  have htakes : r.TakesRun identifierFirst identifierPart := ⟨hstart, hcontext, hgroups⟩
  cases run with
  | nil => simp at hfirst
  | cons x u =>
    have hpart : ∀ ch ∈ u, identifierPart.has ch = true := by
      intro ch hch
      rw [identifierPart, CharSet.has_ofRanges_word]
      exact hrun.isWord ch (List.mem_cons_of_mem x hch)
    have hstop : d.ahead.head?.any identifierPart.has = false := by
      have hstops := hrun.stops
      cases hhead : d.ahead.head? with
      | none => rfl
      | some ch =>
        rw [hhead] at hstops
        rw [Option.any_some, identifierPart, CharSet.has_ofRanges_word]
        exact hstops
    exact htakes.matchAt?_eq hc hfirst hrun.reads hpart hstop

end CompiledRule

namespace Grammar

/-- Whether the rules of a state leave some words to the rule of identifiers and are tame, but for
that of declarators in the root state. -/
def leavesWords (g : Grammar) (words : List String) (state : Nat) : Bool :=
  (g.rules state).any (·.isIdentifier) && (g.rules state).all fun r =>
    (r.isTame && (r.refuses words || r.isIdentifier)) || (state == g.root && r.isDeclarator)

variable {g : Grammar} {words : List String} {state : Nat} {c d : Cursor} {run : List Char}

theorem leavesWords.rule (h : g.leavesWords words state = true) {r : CompiledRule}
    (hr : r ∈ g.rules state) :
    (r.isTame = true ∧ (r.refuses words = true ∨ r.isIdentifier = true)) ∨
      (state = g.root ∧ r.isDeclarator = true) := by
  have hrule := List.all_eq_true.1 (Bool.and_eq_true_iff.1 h).2 r hr
  simpa using hrule

/-- At a word a state takes it by the rule of identifiers or begins a declarator. -/
theorem firstMatch?_of_leavesWords (h : g.leavesWords words state = true) (hc : c.Placed)
    (hrun : c.ReadsWord run d) (hword : String.ofList run ∈ words)
    (hfirst : run.head?.any identifierFirst.has = true) :
    (∃ r, g.firstMatch? state c = some (r, ⟨d, []⟩) ∧ r.IsSingle) ∨
      ∃ r m, g.firstMatch? state c = some (r, m) ∧ state = g.root ∧ r.isDeclarator = true := by
  obtain ⟨r, hr, hidentifier⟩ := List.any_eq_true.1 (Bool.and_eq_true_iff.1 h).1
  have hmatches := CompiledRule.matchAt?_of_isIdentifier hidentifier hc hrun hfirst
  have hsome : (g.firstMatch? state c).isSome = true := by
    rw [firstMatch?, List.findSome?_isSome_iff]
    exact ⟨r, hr, by rw [hmatches]; rfl⟩
  obtain ⟨⟨r, m⟩, hm⟩ := Option.isSome_iff_exists.1 hsome
  obtain ⟨hmem, hmatch⟩ := mem_of_firstMatch? hm
  rcases leavesWords.rule h hmem with ⟨-, hrefuses | hidentifier⟩ | ⟨hroot, hdeclarator⟩
  · rw [CompiledRule.matchAt?_of_refuses hrefuses hc hrun.reads hword] at hmatch
    cases hmatch
  · rw [CompiledRule.matchAt?_of_isIdentifier hidentifier hc hrun hfirst] at hmatch
    obtain rfl := Option.some.inj hmatch
    exact .inl ⟨r, hm, CompiledRule.isSingle_of_isIdentifier hidentifier⟩
  · exact .inr ⟨r, m, hm, hroot, hdeclarator⟩

/-- Whether no rule of a grammar leads to its root state. -/
def neverReenters (g : Grammar) : Bool :=
  g.states.all fun s => s.rules.all fun r =>
    !r.transition.states.contains g.root && !r.action.states.contains g.root

theorem rules_of_le {state : Nat} (h : g.states.length ≤ state) : g.rules state = [] := by
  rw [Grammar.rules, List.getElem?_eq_none h]

theorem neverReenters_rules (h : neverReenters g = true) {r : CompiledRule}
    (hr : r ∈ g.rules state) : g.root ∉ r.transition.states ∧ g.root ∉ r.action.states := by
  rw [Grammar.rules] at hr
  split at hr
  · next s hs =>
    have hrule := List.all_eq_true.1 (List.all_eq_true.1 h s (List.mem_of_getElem? hs)) r hr
    simpa using hrule
  · cases hr

end Grammar

namespace Extension

variable {x : Extension} {g g' : Grammar} {state : Nat} {c d : Cursor} {run : List Char}

/-- Whether each word of an extension goes into a state. -/
def listsAll (x : Extension) (state : String) : Bool :=
  x.words.all fun w => (listedIn x.rules state).any (·.contains w)

/-- At a word that goes into a state an extended state takes it. -/
theorem Extends.firstMatch?_word (h : x.Extends g g') (hplain : ∀ e ∈ x.rules, e.vocabulary.IsPlain)
    {name : String} (hname : g.stateName? state = some name) (hlists : x.listsAll name = true)
    (hc : c.Placed) (hrun : c.ReadsWord run d) (hword : String.ofList run ∈ x.words) :
    ∃ r, g'.firstMatch? state c = some (r, ⟨d, []⟩) ∧ r.IsSingle := by
  have hlisted := List.all_eq_true.1 hlists _ hword
  obtain ⟨v, hv⟩ := Option.isSome_iff_exists.1 (List.find?_isSome.2 (List.any_eq_true.1 hlisted))
  obtain ⟨r, hr, -, hfound⟩ := h.firstMatch?_listed hplain hname hc hrun hv
  refine ⟨r, hfound, ?_, hr.transition⟩
  rw [hr.action]
  rfl

/-- Away from the words of an extension an extended state takes what the state takes. -/
theorem Extends.firstMatch?_elsewhere (h : x.Extends g g')
    (hplain : ∀ e ∈ x.rules, e.vocabulary.IsPlain) (hc : c.Placed)
    (hnone : ∀ run d, c.ReadsWord run d → String.ofList run ∉ x.words) :
    g'.firstMatch? state c = g.firstMatch? state c := by
  refine (h.padded state).findSome?_eq fun r hr => ?_
  have hmatch : r.matchAt? c = none := by
    obtain ⟨v, hv, hvplain, hvwords⟩ := hr.isPlain hplain
    rw [Option.eq_none_iff_forall_ne_some]
    intro m hm
    obtain ⟨w, hw, hrun⟩ := (hv.stands hc hm).readsWord hvplain hv.nonempty
    have hnot := hnone _ _ hrun
    rw [String.ofList_toList] at hnot
    exact hnot (hvwords w hw)
  rw [hmatch]
  rfl

/-- A declarator that begins with a word shadows what an extended state takes. -/
theorem Extends.shadows (h : x.Extends g g') (hplain : ∀ e ∈ x.rules, e.vocabulary.IsPlain)
    (hleaves : g.leavesWords x.words state = true) (hroot : state = g.root) (hc : c.Placed)
    (hrun : c.ReadsWord run d) (hword : String.ofList run ∈ x.words) (hne : run ≠ [])
    {r r' : CompiledRule} {m : RuleMatch} (hm : g.firstMatch? state c = some (r, m))
    (hdeclarator : r.isDeclarator = true) (hm' : g'.firstMatch? state c = some (r', ⟨d, []⟩))
    (hstay : r'.transition = .stay) :
    g.Shadows g' (CFamily.declares x.words) state c r m := by
  obtain ⟨-, hmatch⟩ := Grammar.mem_of_firstMatch? hm
  obtain ⟨hsource, hstay', -, v, hv⟩ := CompiledRule.runs_of_isDeclarator hdeclarator hc hmatch
  obtain ⟨u, v, rfl, hd⟩ := hv.stays hrun.reads (not_mem_paren_of_isWord hrun.isWord)
  have hu : u ≠ [] := by
    rintro rfl
    have hoffset := hrun.reads.offset
    rw [← Cursor.reads_nil.1 hd] at hoffset
    have := byteSize_pos hne
    omega
  have htame : ∀ r ∈ g.rules state, r.isTame = true ∨ r.isDeclarator = true := by
    intro r hr
    exact (Grammar.leavesWords.rule hleaves hr).imp And.left And.right
  have hcrosses : g'.Crosses state d m.stop :=
    h.crosses_run hplain htame (hv.past hd) (hd.placed hc) (hv.inLine hd hu)
  refine ⟨hroot, hm, hstay', ?_, .matched hm' hstay hcrosses⟩
  rw [CFamily.declares, hsource, hrun.takeWhile, beq_self_eq_true, Bool.true_and,
    List.contains_iff_mem]
  exact hword

/-- An extension reclassifies words of a grammar if it changes only states that leave its words to
the rule of identifiers or begin a declarator with them. -/
theorem Extends.reclassifies (h : x.Extends g g') (hplain : ∀ e ∈ x.rules, e.vocabulary.IsPlain)
    (hfirst : ∀ w ∈ x.words, w.toList.head?.any identifierFirst.has = true)
    (hstates : ∀ state, g'.rules state = g.rules state ∨
      (g.leavesWords x.words state = true ∧ (g.stateName? state).any x.listsAll = true))
    (hinner : ∀ state, ∀ r ∈ g.rules state,
      g.root ∉ r.transition.states ∧ g.root ∉ r.action.states) :
    g.Reclassifies g' x.words (CFamily.declares x.words) := by
  refine ⟨h.root_eq, ?_, hinner⟩
  intro c hc state
  rcases hstates state with hsame | ⟨hleaves, hlists⟩
  · exact .inl (.same (by rw [Grammar.firstMatch?, Grammar.firstMatch?, hsame]))
  by_cases hexists : ∃ run d, c.ReadsWord run d ∧ String.ofList run ∈ x.words
  · obtain ⟨run, d, hrun, hword⟩ := hexists
    have hhead := hfirst _ hword
    rw [String.toList_ofList] at hhead
    have hne : run ≠ [] := by
      rintro rfl
      cases hhead
    obtain ⟨name, hname, hlists⟩ := (Option.any_eq_true _ _).1 hlists
    obtain ⟨r', hm', hr'⟩ := h.firstMatch?_word hplain hname hlists hc hrun hword
    rcases Grammar.firstMatch?_of_leavesWords hleaves hc hrun hword hhead with
      ⟨r, hm, hr⟩ | ⟨r, m, hm, hroot, hdeclarator⟩
    · exact .inl (.word hm hm' hr hr' hrun.reads hword)
    · exact .inr ⟨r, m, h.shadows hplain hleaves hroot hc hrun hword hne hm hdeclarator hm'
        hr'.transition⟩
  · refine .inl (.same (h.firstMatch?_elsewhere hplain hc ?_))
    intro run d hrun hword
    exact hexists ⟨run, d, hrun, hword⟩

/-! ### The conditions computed -/

/-- Whether the words of an extension are those of identifiers. -/
def namesIdentifiers (x : Extension) : Bool :=
  x.rules.all fun e => e.vocabulary.words.all fun w =>
    w.toList.all isWordChar && w.toList.head?.any identifierFirst.has

/-- Whether an extended grammar changes only states that leave the words to the rule of identifiers
or begin a declarator with them. -/
def keepsStates (x : Extension) (g g' : Grammar) : Bool :=
  (List.range g.states.length).all fun state =>
    g'.rules state == g.rules state ||
      (g.leavesWords x.words state && (g.stateName? state).any x.listsAll)

theorem Extends.keepsStates_rules (h : x.Extends g g') (hkeeps : x.keepsStates g g' = true)
    (state : Nat) : g'.rules state = g.rules state ∨
      (g.leavesWords x.words state = true ∧ (g.stateName? state).any x.listsAll = true) := by
  by_cases hlt : state < g.states.length
  · have hstate := List.all_eq_true.1 hkeeps state (List.mem_range.2 hlt)
    simpa using hstate
  · have hlength : g'.states.length = g.states.length := by
      have hnames := congrArg List.length h.names
      simpa [Grammar.stateNames] using hnames
    left
    rw [Grammar.rules_of_le (by omega), Grammar.rules_of_le (by omega)]

theorem namesIdentifiers_words (h : x.namesIdentifiers = true) :
    (∀ e ∈ x.rules, e.vocabulary.IsPlain) ∧
      ∀ w ∈ x.words, w.toList.head?.any identifierFirst.has = true := by
  have hword : ∀ e ∈ x.rules, ∀ w ∈ e.vocabulary.words,
      w.toList.all isWordChar = true ∧ w.toList.head?.any identifierFirst.has = true := by
    intro e he w hw
    exact Bool.and_eq_true_iff.1 (List.all_eq_true.1 (List.all_eq_true.1 h e he) w hw)
  constructor
  · intro e he w hw
    exact List.all_eq_true.1 (hword e he w hw).1
  · intro w hw
    obtain ⟨e, he, hw⟩ := List.mem_flatMap.1 hw
    exact (hword e he w hw).2

end Extension

end Highlighting
