import Highlighting.Proofs.Grammar.Building

/-!
# The search for circles

States are expanded by a depth-first search: a splice of a state that is expanded already stands for
its rules, one of a state that is being expanded closes a circle, and for any other state the search
goes on into its entries.  `Search` says what such a search comes to and sets no bound to its depth.
As its derivations are finite, there is one only where the search ends.

The search through any graph of splices ends, and in one way only (`Search.unique`); it is what the
bounded expansion computes (`expand_search`).  The error of a definition that cannot be built for a
circle names one (`made_build_circle`).
-/

namespace Highlighting

namespace Definition

/-- What is found for entries, behind rules that were found in front of them. -/
def putBehind (rules : List CompiledRule) (found : Except (List Nat) (List CompiledRule × Expanded)) :
    Except (List Nat) (List CompiledRule × Expanded) :=
  found.map fun x => (rules ++ x.1, x.2)

theorem putBehind_append (rules rules' : List CompiledRule)
    (found : Except (List Nat) (List CompiledRule × Expanded)) :
    putBehind (rules ++ rules') found = putBehind rules (putBehind rules' found) := by
  cases found <;> simp [putBehind, Except.map]

theorem putBehind_nil (found : Except (List Nat) (List CompiledRule × Expanded)) :
    putBehind [] found = found := by
  cases found <;> rfl

/-- A search through the entries of a state.  The states that are being expanded come latest first;
beside the rules that the entries become, the search finds the states that are expanded then. -/
inductive Search (slots : List (List Slot)) : List Nat → List Slot → Expanded →
    Except (List Nat) (List CompiledRule × Expanded) → Prop where
  | nil {visiting : List Nat} {known : Expanded} : Search slots visiting [] known (.ok ([], known))
  | rule {visiting : List Nat} {known : Expanded} {r : CompiledRule} {rest : List Slot}
      {found : Except (List Nat) (List CompiledRule × Expanded)}
      (h : Search slots visiting rest known found) :
      Search slots visiting (.rule r :: rest) known (putBehind [r] found)
  /-- the state is expanded already -/
  | expanded {visiting : List Nat} {known : Expanded} {target : Nat} {rest : List Slot}
      {rules : List CompiledRule} {found : Except (List Nat) (List CompiledRule × Expanded)}
      (hknown : known.getD target none = some rules) (h : Search slots visiting rest known found) :
      Search slots visiting (.splice target :: rest) known (putBehind rules found)
  /-- the state is being expanded, and the others since then -/
  | circle {visiting since before : List Nat} {known : Expanded} {target : Nat} {rest : List Slot}
      (hknown : known.getD target none = none) (hvisiting : visiting = since ++ target :: before)
      (hsince : target ∉ since) :
      Search slots visiting (.splice target :: rest) known
        (.error (target :: (since.reverse ++ [target])))
  /-- the state is new, and the search goes on behind its entries -/
  | through {visiting : List Nat} {known known' : Expanded} {target : Nat} {rest : List Slot}
      {rules : List CompiledRule} {found : Except (List Nat) (List CompiledRule × Expanded)}
      (hknown : known.getD target none = none) (hnew : target ∉ visiting)
      (hinner : Search slots (target :: visiting) (slots.getD target []) known (.ok (rules, known')))
      (h : Search slots visiting rest (known'.setIfInBounds target (some rules)) found) :
      Search slots visiting (.splice target :: rest) known (putBehind rules found)
  /-- the state is new, and there is a circle in its entries -/
  | inside {visiting path : List Nat} {known : Expanded} {target : Nat} {rest : List Slot}
      (hknown : known.getD target none = none) (hnew : target ∉ visiting)
      (hinner : Search slots (target :: visiting) (slots.getD target []) known (.error path)) :
      Search slots visiting (.splice target :: rest) known (.error path)

variable {slots : List (List Slot)} {visiting : List Nat} {entries : List Slot} {known : Expanded}

/-- The first place of a state in a list is determined by the list. -/
theorem since_unique {since since' before before' : List Nat} {target : Nat}
    (h : since ++ target :: before = since' ++ target :: before') (hsince : target ∉ since)
    (hsince' : target ∉ since') : since = since' := by
  rw [← takeWhile_bne_append hsince before, h, takeWhile_bne_append hsince']

/-- A search comes to one result. -/
theorem Search.unique {found found' : Except (List Nat) (List CompiledRule × Expanded)}
    (h : Search slots visiting entries known found)
    (h' : Search slots visiting entries known found') : found = found' := by
  induction h generalizing found' with
  | nil => cases h'; rfl
  | rule _ ih => cases h' with | rule h' => rw [ih h']
  | expanded hknown _ ih =>
    cases h' with
    | expanded hknown' h' =>
      obtain rfl := Option.some.inj (hknown.symm.trans hknown')
      rw [ih h']
    | circle hknown' | through hknown' | inside hknown' =>
      cases hknown.symm.trans hknown'
  | circle hknown hvisiting hsince =>
    cases h' with
    | expanded hknown' => cases hknown.symm.trans hknown'
    | circle _ hvisiting' hsince' =>
      rw [since_unique (hvisiting.symm.trans hvisiting') hsince hsince']
    | through _ hnew | inside _ hnew => exact absurd (by simp [hvisiting]) hnew
  | through hknown hnew _ _ ihinner ih =>
    cases h' with
    | expanded hknown' => cases hknown.symm.trans hknown'
    | circle _ hvisiting => exact absurd (by simp [hvisiting]) hnew
    | through _ _ hinner' h' =>
      obtain ⟨rfl, rfl⟩ := Prod.mk.inj (Except.ok.inj (ihinner hinner'))
      rw [ih h']
    | inside _ _ hinner' => cases ihinner hinner'
  | inside hknown hnew _ ihinner =>
    cases h' with
    | expanded hknown' => cases hknown.symm.trans hknown'
    | circle _ hvisiting => exact absurd (by simp [hvisiting]) hnew
    | through _ _ hinner' => cases ihinner hinner'
    | inside _ _ hinner' => exact ihinner hinner'

/-! ### The bounded expansion -/

/-- A way to expand a state does what a search does at a splice of it. -/
structure Answers (slots : List (List Slot)) (visiting : List Nat)
    (rulesOf : Nat → Expanded → Except (List Nat) (List CompiledRule × Expanded))
    (target : Nat) : Prop where
  ok : ∀ {known rules known' rest found}, rulesOf target known = .ok (rules, known') →
    Search slots visiting rest known' found →
      Search slots visiting (.splice target :: rest) known (putBehind rules found)
  error : ∀ {known path rest}, rulesOf target known = .error path →
    Search slots visiting (.splice target :: rest) known (.error path)

theorem spliceAll_search
    {rulesOf : Nat → Expanded → Except (List Nat) (List CompiledRule × Expanded)}
    (hrules : ∀ target, Slot.splice target ∈ entries → Answers slots visiting rulesOf target)
    (before : List CompiledRule) (known : Expanded) :
    ∃ found, Search slots visiting entries known found ∧
      spliceAll rulesOf entries before known = putBehind before.reverse found := by
  induction entries generalizing before known with
  | nil => exact ⟨_, .nil, by simp [spliceAll, putBehind, Except.map]⟩
  | cons entry rest ih =>
    have ih := ih fun target ht => hrules target (List.mem_cons_of_mem _ ht)
    cases entry with
    | rule r =>
      obtain ⟨found, hfound, heq⟩ := ih (r :: before) known
      refine ⟨_, .rule hfound, ?_⟩
      rw [spliceAll, heq, List.reverse_cons, putBehind_append]
    | splice target =>
      have hanswers := hrules target List.mem_cons_self
      rw [spliceAll]
      cases hresult : rulesOf target known with
      | ok x =>
        obtain ⟨rules, known'⟩ := x
        obtain ⟨found, hfound, heq⟩ := ih (rules.reverse ++ before) known'
        refine ⟨_, hanswers.ok hresult hfound, ?_⟩
        dsimp only
        rw [heq, List.reverse_append, List.reverse_reverse, putBehind_append]
      | error path => exact ⟨_, hanswers.error hresult, rfl⟩

/-- The bound on the depth is not reached: the states on the way are different ones, and there are
not more of them than states. -/
theorem expandWithin_answers {n state : Nat} (hway : IsWay slots (state :: visiting))
    (hnodup : visiting.Nodup) (hcount : visiting.length + n = slots.length + 1) :
    Answers slots visiting (expandWithin slots n visiting) state := by
  induction n generalizing visiting state with
  | zero =>
    have := hway.length_le hnodup
    omega
  | succ n ih =>
    have hentries (hnew : state ∉ visiting) (known : Expanded) :
        Search slots (state :: visiting) (slots.getD state []) known
          (spliceAll (expandWithin slots n (state :: visiting)) (slots.getD state []) [] known) := by
      obtain ⟨found, hfound, heq⟩ := spliceAll_search (fun target hcalls =>
        ih (List.isChain_cons_cons.2 ⟨hcalls, hway⟩) (List.nodup_cons.2 ⟨hnew, hnodup⟩)
          (by rw [List.length_cons]; omega)) [] known
      rw [heq, List.reverse_nil, putBehind_nil]
      exact hfound
    constructor
    · intro known rules known' rest found h hrest
      rcases expandWithin_succ slots n visiting state known with
        ⟨rules₁, hknown, heq⟩ | ⟨-, -, heq⟩ | ⟨hknown, hnew, heq⟩ <;> rw [heq] at h
      · obtain ⟨rfl, rfl⟩ := Prod.mk.inj (Except.ok.inj h)
        exact .expanded hknown hrest
      · cases h
      · obtain ⟨⟨rules₁, known₁⟩, hall, hx⟩ := Except.map_eq_ok h
        obtain ⟨rfl, rfl⟩ := Prod.mk.inj hx
        exact .through hknown hnew (hall ▸ hentries hnew known) hrest
    · intro known path rest h
      rcases expandWithin_succ slots n visiting state known with
        ⟨rules, -, heq⟩ | ⟨hknown, hmem, heq⟩ | ⟨hknown, hnew, heq⟩ <;> rw [heq] at h
      · cases h
      · obtain ⟨since, before, hvisiting, hsince⟩ := List.eq_append_cons_of_mem hmem
        obtain rfl := Except.error.inj h
        have hpath := takeWhile_bne_append hsince before
        rw [hvisiting, hpath, List.reverse_cons, List.reverse_append]
        exact .circle hknown rfl hsince
      · have hinner := Except.map_eq_error h ▸ hentries hnew known
        exact .inside hknown hnew hinner

theorem expandAll_cons {state : Nat} {states : List Nat} {rules : List CompiledRule}
    {known' : Expanded}
    (h : expandWithin slots (slots.length + 1) [] state known = .ok (rules, known')) :
    expandAll slots (state :: states) known = (expandAll slots states known').map (rules :: ·) := by
  rw [expandAll, h]
  change (expandAll slots states known' >>= fun rest => .ok (rules :: rest)) = _
  cases expandAll slots states known' <;> rfl

/-- The expansions of states one after another are what a search finds for splices of them. -/
theorem expandAll_search (states : List Nat) (known : Expanded) :
    ∃ found, Search slots [] (states.map .splice) known found ∧
      (expandAll slots states known).map List.flatten = found.map Prod.fst := by
  induction states generalizing known with
  | nil => exact ⟨_, .nil, rfl⟩
  | cons state states ih =>
    have hanswers : Answers slots [] (expandWithin slots (slots.length + 1) []) state :=
      expandWithin_answers (.singleton state) .nil (by simp)
    cases hresult : expandWithin slots (slots.length + 1) [] state known with
    | ok x =>
      obtain ⟨rules, known'⟩ := x
      obtain ⟨found, hfound, heq⟩ := ih known'
      refine ⟨_, hanswers.ok hresult hfound, ?_⟩
      rw [expandAll_cons hresult]
      calc ((expandAll slots states known').map (rules :: ·)).map List.flatten
          = ((expandAll slots states known').map List.flatten).map (rules ++ ·) := by
            cases expandAll slots states known' <;> rfl
        _ = (found.map Prod.fst).map (rules ++ ·) := by rw [heq]
        _ = (putBehind rules found).map Prod.fst := by cases found <;> rfl
    | error path =>
      refine ⟨_, hanswers.error hresult, ?_⟩
      rw [expandAll, hresult]
      rfl

/-- The search through all states ends, whatever the graph of splices is, and in one way only.  It
finds what the bounded expansion computes. -/
theorem expand_search (slots : List (List Slot)) :
    ∃ found, (∀ found', Search slots [] ((List.range slots.length).map .splice)
        (Array.replicate slots.length none) found' ↔ found' = found) ∧
      (expand slots).map List.flatten = found.map Prod.fst := by
  obtain ⟨found, hfound, heq⟩ : ∃ found, Search slots [] ((List.range slots.length).map .splice)
      (Array.replicate slots.length none) found ∧
        (expand slots).map List.flatten = found.map Prod.fst := expandAll_search _ _
  exact ⟨found, fun found' => ⟨fun h => h.unique hfound, fun h => h ▸ hfound⟩, heq⟩

/-! ### Circles of definitions -/

/-- Where a definition cannot be built for a circle, the error names one: a way along the splices of
its states that comes back to where it begins and meets nothing else twice.  The search that finds it
ends for every graph of splices. -/
theorem made_build_circle (name : String) (edits : List Edit) :
    (∀ path, (made name edits).build.value = .error (.includeCycle path) →
      IsCircle (made name edits).Includes path) ∧
    ∀ slots : List (List Slot), ∃ found,
      (∀ found', Search slots [] ((List.range slots.length).map .splice)
        (Array.replicate slots.length none) found' ↔ found' = found) ∧
      (expand slots).map List.flatten = found.map Prod.fst := by
  refine ⟨fun path h => ?_, expand_search⟩
  rw [build_eq_compile] at h
  cases failsWith_of_compile (nodup_stateNames_made name edits) h with
  | entry _ _ _ h => cases h
  | circle _ _ h => exact h

theorem made_build_circle_three :
    let edits : List Edit := [.append rootState [.splice "a"], .append "a" [.splice "b"],
      .append "b" [.splice "a"]]
    (made "demo" edits).build.value = .error (.includeCycle ["a", "b", "a"]) ∧
      IsCircle (made "demo" edits).Includes ["a", "b", "a"] := by
  intro edits
  have h : (made "demo" edits).build.value = .error (.includeCycle ["a", "b", "a"]) := by
    decide +kernel
  exact ⟨h, (made_build_circle "demo" edits).1 _ h⟩

end Definition

end Highlighting
