import Highlighting.Proofs.Grammar.Building

/-!
# The order of states and entries

However a definition is made by edits, its states are listed in the order in which they were first
declared, and a state has the blocks that were prepended to it, the latest first, in front of the
blocks that were appended to it, the earliest first (`made_ordered`).  A prepend that comes before
the declaration of its state fails, and is not among them.
-/

namespace Highlighting

namespace Edit

/-- The state that an edit declares, unless it is there already. -/
def declared? : Edit → Option String
  | append state _ => some state
  | prepend .. | rename _ => none

/-- The entries that an edit puts behind those of a state. -/
def appended? (state : String) : Edit → Option (List Entry)
  | append s entries => if s = state then some entries else none
  | prepend .. | rename _ => none

/-- The entries that an edit puts in front of those of a state. -/
def prepended? (state : String) : Edit → Option (List Entry)
  | prepend s entries => if s = state then some entries else none
  | append .. | rename _ => none

end Edit

namespace Definition

variable {d : Definition} {g : Grammar} {state s : String}

/-- Whether an edit succeeds. -/
def accepts (d : Definition) : Edit → Bool
  | .prepend state entries => (d.prepend state entries).value.isOk
  | .append .. | .rename _ => true

/-- The edits of a list that succeed, each on what those before it have left. -/
def accepted : Definition → List Edit → List Edit
  | _, [] => []
  | d, e :: edits =>
    if d.accepts e then e :: accepted (d.edit e) edits else accepted (d.edit e) edits

/-- The entries of a state; one that is not declared has none. -/
def contents (d : Definition) (state : String) : List Entry := (d.entries? state).getD []

/-! ### The entries of one state -/

theorem entries?_eq_none (h : state ∉ d.stateNames) : d.entries? state = none := by
  rw [entries?, Option.map_eq_none_iff, List.find?_eq_none]
  intro t ht heq
  exact h (beq_iff_eq.1 heq ▸ List.mem_map_of_mem ht)

theorem entries?_eq_contents (h : state ∈ d.stateNames) :
    d.entries? state = some (d.contents state) := by
  obtain ⟨i, hi⟩ := mem_stateNames_iff.1 h
  obtain ⟨entries, -, hentries⟩ := entries?_of_index? hi
  rw [contents, hentries, Option.getD_some]

theorem entries?_modifyState (d : Definition) (s state : String) (f : List Entry → List Entry) :
    (d.modifyState s f).entries? state =
      (d.entries? state).map (if s = state then f else id) := by
  have hname : ((fun t : String × List Entry => t.1 == state) ∘
      fun t => if t.1 == s then (t.1, f t.2) else t) = fun t => t.1 == state := by
    funext t
    rw [Function.comp_apply]
    split <;> rfl
  rw [modifyState, entries?, entries?, List.find?_map, hname, Option.map_map, Option.map_map]
  cases hfind : d.states.find? fun t => t.1 == state with
  | none => rfl
  | some t =>
    have ht : (t.1 == state) = true := by simpa using List.find?_some hfind
    obtain rfl := beq_iff_eq.1 ht
    by_cases hs : s = t.1
    · simp [hs]
    · simp [hs, Ne.symm hs]

theorem contents_modifyState (h : s ∈ d.stateNames) (state : String)
    (f : List Entry → List Entry) :
    (d.modifyState s f).contents state =
      if s = state then f (d.contents state) else d.contents state := by
  rw [contents, entries?_modifyState]
  split
  · next hs =>
    rw [entries?_eq_contents (hs ▸ h)]
    rfl
  · rw [Option.map_id]
    rfl

theorem contents_append (d : Definition) (s state : String) (entries : List Entry) :
    (d.append s entries).contents state =
      d.contents state ++ if s = state then entries else [] := by
  rw [append]
  split
  · next hs =>
    rw [contents_modifyState (hasState_iff.1 hs)]
    split
    · rfl
    · rw [List.append_nil]
  · next hs =>
    have hnew := mt hasState_iff.2 hs
    rw [contents, contents, entries?, entries?, List.find?_append, Option.map_or]
    by_cases h : s = state
    · have hnone := entries?_eq_none (h ▸ hnew)
      rw [entries?] at hnone
      rw [hnone, if_pos h]
      simp [h]
    · simp [h]

theorem index?_eq_some_iff (hnodup : d.stateNames.Nodup) {i : Nat} :
    d.index? s = some i ↔ d.stateNames[i]? = some s := by
  constructor
  · intro h
    obtain ⟨entries, hstate, -⟩ := entries?_of_index? h
    rw [stateNames, List.getElem?_map, hstate]
    rfl
  · intro h
    rw [stateNames, List.getElem?_map] at h
    obtain ⟨⟨_, entries⟩, hstate, rfl⟩ := Option.map_eq_some_iff.1 h
    exact index?_of_getElem? hnodup hstate

/-! ### One edit -/

theorem prepend_value (d : Definition) (s : String) (entries : List Entry) :
    (d.prepend s entries).value =
      if s ∈ d.stateNames then .ok (d.modifyState s (entries ++ ·))
      else .error (.unknownState s d.name) := by
  rw [prepend, prepend?]
  simp only [hasState_iff]

theorem accepts_prepend (d : Definition) (s : String) (entries : List Entry) :
    d.accepts (.prepend s entries) = true ↔ s ∈ d.stateNames := by
  rw [accepts, prepend_value]
  split
  · next h => exact ⟨fun _ => h, fun _ => rfl⟩
  · next h => exact ⟨nofun, fun h' => absurd h' h⟩

/-- A prepend to a state that is not declared leaves the definition as it is. -/
theorem edit_prepend_of_not_mem (h : s ∉ d.stateNames) (entries : List Entry) :
    d.edit (.prepend s entries) = d := by
  rw [edit, prepend_value, if_neg h]

theorem edit_prepend_of_mem (h : s ∈ d.stateNames) (entries : List Entry) :
    d.edit (.prepend s entries) = d.modifyState s (entries ++ ·) := by
  rw [edit, prepend_value, if_pos h]

/-- What an edit does to the entries of a state. -/
theorem contents_edit (d : Definition) (e : Edit) (state : String) :
    (d.edit e).contents state =
      (if d.accepts e then (e.prepended? state).getD [] else []) ++ d.contents state ++
        (e.appended? state).getD [] := by
  cases e with
  | append s entries =>
    rw [edit, contents_append]
    by_cases h : s = state <;> simp [Edit.prepended?, Edit.appended?, h]
  | prepend s entries =>
    by_cases hs : s ∈ d.stateNames
    · rw [edit_prepend_of_mem hs, contents_modifyState hs,
        if_pos ((d.accepts_prepend s entries).2 hs)]
      by_cases h : s = state <;> simp [Edit.prepended?, Edit.appended?, h]
    · rw [edit_prepend_of_not_mem hs, if_neg (mt (d.accepts_prepend s entries).1 hs)]
      simp [Edit.appended?]
  | rename name => simp [Edit.prepended?, Edit.appended?, edit, rename, contents, entries?]

/-- An edit declares a state that it names and that is not there yet, behind the others. -/
theorem stateNames_edit_eraseDups {names : List String} (h : d.stateNames = names.eraseDups)
    (e : Edit) : (d.edit e).stateNames = (names ++ e.declared?.toList).eraseDups := by
  cases e with
  | append s entries =>
    rw [Edit.declared?, Option.toList_some, eraseDups_concat, edit, append]
    by_cases hs : s ∈ d.stateNames
    · rw [if_pos (hasState_iff.2 hs), stateNames_modifyState,
        if_pos (List.mem_eraseDups.1 (h ▸ hs)), h]
    · rw [if_neg (mt hasState_iff.1 hs), if_neg fun hmem => hs (h ▸ List.mem_eraseDups.2 hmem), ← h]
      exact List.map_append
  | prepend s entries =>
    rw [Edit.declared?, Option.toList_none, List.append_nil, ← h]
    by_cases hs : s ∈ d.stateNames
    · rw [edit_prepend_of_mem hs, stateNames_modifyState]
    · rw [edit_prepend_of_not_mem hs]
  | rename name =>
    rw [Edit.declared?, Option.toList_none, List.append_nil, ← h]
    rfl

/-! ### Any number of edits -/

theorem stateNames_foldl {names : List String} (h : d.stateNames = names.eraseDups)
    (edits : List Edit) :
    (edits.foldl edit d).stateNames = (names ++ edits.filterMap Edit.declared?).eraseDups := by
  induction edits generalizing d names with
  | nil => rw [List.filterMap_nil, List.append_nil]; exact h
  | cons e edits ih =>
    rw [List.foldl_cons, ih (stateNames_edit_eraseDups h e), List.append_assoc,
      List.filterMap_cons]
    cases e.declared? <;> rfl

/-- The entries that are in a state come behind the prepended blocks, the latest of which is first,
and in front of the appended blocks. -/
theorem contents_foldl (d : Definition) (edits : List Edit) (state : String) :
    (edits.foldl edit d).contents state =
      ((d.accepted edits).filterMap (Edit.prepended? state)).reverse.flatten ++
        d.contents state ++ (edits.filterMap (Edit.appended? state)).flatten := by
  induction edits generalizing d with
  | nil => simp [accepted]
  | cons e edits ih =>
    have hfront : ((d.accepted (e :: edits)).filterMap (Edit.prepended? state)).reverse.flatten =
        (((d.edit e).accepted edits).filterMap (Edit.prepended? state)).reverse.flatten ++
          if d.accepts e then (e.prepended? state).getD [] else [] := by
      rw [accepted]
      split
      · rw [List.filterMap_cons]
        cases e.prepended? state <;> simp
      · rw [List.append_nil]
    have hback : ((e :: edits).filterMap (Edit.appended? state)).flatten =
        (e.appended? state).getD [] ++ (edits.filterMap (Edit.appended? state)).flatten := by
      rw [List.filterMap_cons]
      cases e.appended? state <;> rfl
    rw [List.foldl_cons, ih, contents_edit, hfront, hback]
    simp only [List.append_assoc]

/-- A definition that is made by edits lists its states once each, in the order of the edits that
first declare them.  The entries of a state are the blocks that were prepended to it with success,
the latest first, and then those that were appended to it, in order.  A prepend fails for a state
that is not declared, and then changes nothing.  And in a grammar that is built from the definition,
the index of a state is the place of its name in that order. -/
theorem made_ordered (name : String) (edits : List Edit) :
    (made name edits).stateNames.Nodup ∧
    (made name edits).stateNames = (edits.filterMap Edit.declared?).eraseDups ∧
    (∀ s ∈ (made name edits).stateNames, (made name edits).entries? s =
      some ((((named name).accepted edits).filterMap (Edit.prepended? s)).reverse.flatten ++
        (edits.filterMap (Edit.appended? s)).flatten)) ∧
    (∀ s entries e, ((made name edits).prepend s entries).value = .error e ↔
      s ∉ edits.filterMap Edit.declared? ∧ e = .unknownState s (made name edits).name) ∧
    (∀ s entries, s ∉ edits.filterMap Edit.declared? →
      made name (edits ++ [.prepend s entries]) = made name edits) ∧
    ∀ g, (made name edits).build.value = .ok g → ∀ s i,
      g.stateIndex? s = some i ↔ (edits.filterMap Edit.declared?).eraseDups[i]? = some s := by
  have hnodup := nodup_stateNames_made name edits
  have hnone : (named name).stateNames = ([] : List String).eraseDups := rfl
  have hnames : (made name edits).stateNames = (edits.filterMap Edit.declared?).eraseDups :=
    stateNames_foldl hnone edits
  have hmem : ∀ s, s ∈ (made name edits).stateNames ↔ s ∈ edits.filterMap Edit.declared? :=
    fun s => by rw [hnames, List.mem_eraseDups]
  refine ⟨hnodup, hnames, fun s hs => ?_, fun s entries e => ?_, fun s entries hs => ?_,
    fun g hg s i => ?_⟩
  · have hempty : (named name).contents s = [] := rfl
    rw [entries?_eq_contents hs, made, contents_foldl, hempty, List.append_nil]
  · rw [prepend_value, ← hmem]
    split
    · next hs => exact ⟨nofun, fun h => absurd hs h.1⟩
    · next hs => exact ⟨fun h => ⟨hs, (Except.error.inj h).symm⟩, fun h => congrArg _ h.2.symm⟩
  · rw [made, List.foldl_append]
    exact edit_prepend_of_not_mem (mt (hmem s).1 hs) entries
  · rw [build_eq_compile] at hg
    rw [stateIndex?_eq (buildsTo_of_compile hnodup hg).names, ← hnames]
    exact index?_eq_some_iff hnodup

/-- Edits of two states in turn; the second is not declared when entries are first prepended to
it. -/
def interleaved : List Edit :=
  let word := fun pattern => Entry.rule (.token pattern .name)
  [.append rootState [word "c"], .prepend "later" [word "x"], .prepend rootState [word "b"],
    .append "later" [word "y"], .rename "words", .prepend rootState [word "z", word "a"],
    .append rootState [word "d"], .prepend "later" [word "w"]]

/-- Of the two prepends to the second state only the last one counts. -/
theorem made_ordered_interleaved : ∃ g, (made "demo" interleaved).build.value = .ok g ∧
    g.stateIndex? "later" = some 1 ∧
    (made "demo" interleaved).entries? "later" =
      some [.rule (.token "w" .name), .rule (.token "y" .name)] ∧
    ((made "demo" (interleaved.take 1)).prepend "later" []).value =
      .error (.unknownState "later" "demo") := by
  have hbuilds : (made "demo" interleaved).build.value.toOption.isSome = true := by decide +kernel
  obtain ⟨g, hg⟩ := Option.isSome_iff_exists.1 hbuilds
  have hg := Except.eq_ok_of_toOption hg
  obtain ⟨-, -, hentries, -, -, hindex⟩ := made_ordered "demo" interleaved
  obtain ⟨-, -, -, hprepend, -, -⟩ := made_ordered "demo" (interleaved.take 1)
  refine ⟨g, hg, (hindex g hg _ _).2 (by decide), hentries "later" (by decide), ?_⟩
  exact (hprepend _ _ _).2 ⟨by decide, rfl⟩

end Definition

end Highlighting
