import Mathlib.Algebra.Ring.Parity
import Highlighting.Page.Dispatch
import Highlighting.Proofs.Page.Forest

/-!
# Clicks toggle widgets

With the listener that toggles widgets on a page, and no other, a click on the summary of a widget
toggles this widget, and a click elsewhere changes nothing (`dispatch_disclosureToggle`).  So after
any number of clicks a widget is open if it was open before and its summaries were clicked an even
number of times, or if it was closed and they were clicked an odd number of times; nothing else in
the document is another (`dispatchAll_toggles`).
-/

namespace Highlighting

namespace Page

/-! ### Lists of attributes -/

section Attributes

variable {name other value : String}

theorem find?_setAttributeIn_self (name value : String) (as : List (String × String)) :
    (setAttributeIn name value as).find? (fun a => a.1 == name) = some (name, value) := by
  induction as with
  | nil => simp [setAttributeIn]
  | cons a as ih =>
    rw [setAttributeIn]
    split
    · simp
    · split
      · simp
      · next hne => rw [List.find?_cons_of_neg (by simpa using Ne.symm hne), ih]

theorem find?_setAttributeIn_of_ne (h : other ≠ name) (value : String)
    (as : List (String × String)) :
    (setAttributeIn name value as).find? (fun a => a.1 == other) =
      as.find? fun a => a.1 == other := by
  have hne : (name == other) = false := by simpa using Ne.symm h
  induction as with
  | nil => simp [setAttributeIn, hne]
  | cons a as ih =>
    rw [setAttributeIn]
    split
    · simp [hne]
    · split
      · next heq => simp [hne, ← heq]
      · rw [List.find?_cons, List.find?_cons, ih]

theorem find?_removed_of_ne (h : other ≠ name) (as : List (String × String)) :
    (as.filter fun a => a.1 != name).find? (fun a => a.1 == other) =
      as.find? fun a => a.1 == other := by
  rw [List.find?_filter]
  congr 1
  funext a
  by_cases ha : a.1 = other <;> simp [ha, h]

end Attributes

/-- The attributes of a widget after it has been toggled. -/
def toggledAttributes (as : List (String × String)) : List (String × String) :=
  let rest := as.filter fun a => a.1 != openAttribute
  if (as.find? fun a => a.1 == openAttribute).isSome then rest
  else setAttributeIn openAttribute openAttribute rest

theorem isSome_toggledAttributes (as : List (String × String)) :
    ((toggledAttributes as).find? fun a => a.1 == openAttribute).isSome =
      !(as.find? fun a => a.1 == openAttribute).isSome := by
  rw [toggledAttributes]
  split
  · next h => simp [h]
  · next h => simp [h, find?_setAttributeIn_self]

theorem find?_toggledAttributes_of_ne {name : String} (h : name ≠ openAttribute)
    (as : List (String × String)) :
    (toggledAttributes as).find? (fun a => a.1 == name) = as.find? fun a => a.1 == name := by
  rw [toggledAttributes]
  split
  · exact find?_removed_of_ne h as
  · rw [find?_setAttributeIn_of_ne h, find?_removed_of_ne h]

namespace Document

variable {d d' : Document} {id target : NodeId} {name : String}

theorem lowercase_openAttribute : asciiLowercase openAttribute = openAttribute := by
  decide +kernel

/-! ### Toggling a widget -/

/-- The document with one element toggled. -/
def toggled (d : Document) (id : NodeId) : Document :=
  d.update id fun e => { e with attributes := toggledAttributes e.attributes }

theorem tagName?_toggled (d : Document) (id x : NodeId) :
    (d.toggled id).tagName? x = d.tagName? x := by
  rw [tagName?, tagName?, toggled, nodes_update]
  split
  · cases d.nodes[x]? <;> rfl
  · rfl

theorem parent?_toggled (d : Document) (id x : NodeId) :
    (d.toggled id).parent? x = d.parent? x := by
  exact parent?_update (by intro e; rfl) x

theorem children_toggled (d : Document) (id x : NodeId) :
    (d.toggled id).children x = d.children x := by
  exact children_update (by intro e; rfl) x

theorem size_toggled (d : Document) (id : NodeId) : (d.toggled id).size = d.size :=
  size_update d id _

theorem nodes_toggled_of_ne {x : NodeId} (h : id ≠ x) :
    (d.toggled id).nodes[x]? = d.nodes[x]? := by
  rw [toggled, nodes_update, if_neg h]

theorem attribute?_toggled (h : asciiLowercase name ≠ openAttribute) (d : Document)
    (id x : NodeId) : (d.toggled id).attribute? x name = d.attribute? x name := by
  rw [attribute?, attribute?, toggled, nodes_update]
  split
  · cases d.nodes[x]? with
    | none => rfl
    | some e => simp [find?_toggledAttributes_of_ne h]
  · rfl

theorem isOpen_eq (d : Document) (id : NodeId) :
    d.isOpen id = (d.nodes[id]?.bind fun e =>
      e.attributes.find? fun a => a.1 == openAttribute).isSome := by
  rw [isOpen, hasAttribute, attribute?, lowercase_openAttribute]
  cases d.nodes[id]? <;> simp

theorem isOpen_toggled (h : id < d.size) (x : NodeId) :
    (d.toggled id).isOpen x = (d.isOpen x ^^ decide (id = x)) := by
  rw [isOpen_eq, isOpen_eq, toggled, nodes_update]
  by_cases hx : id = x
  · obtain ⟨e, he⟩ := exists_element h
    simp [← hx, he, isSome_toggledAttributes]
  · simp [hx]

/-- What toggling does: the attribute of an open widget is removed, and a closed one is given it. -/
theorem toggle_eq (h : id < d.size) : d.toggle id = (d.toggled id, .ok !d.isOpen id) := by
  obtain ⟨e, he⟩ := exists_element h
  have hcontains : d.contains id = true := contains_iff.2 h
  have hname : isName openAttribute = true := by decide +kernel
  have hopen := d.isOpen_eq id
  rw [he, Option.bind_some] at hopen
  have hremove : d.removeAttribute id openAttribute =
      (d.update id fun e =>
        { e with attributes := e.attributes.filter fun a => a.1 != openAttribute },
        .ok (d.isOpen id)) := by
    simp [removeAttribute, hcontains, lowercase_openAttribute, isOpen]
  have hset : ∀ d' : Document, d'.size = d.size → d'.setAttribute id openAttribute openAttribute =
      (d'.update id fun e =>
        { e with attributes := setAttributeIn openAttribute openAttribute e.attributes },
        .ok ()) := by
    intro d' hsize
    have hcontains' : d'.contains id = true := contains_iff.2 (hsize ▸ h)
    simp [setAttribute, hcontains', hname, lowercase_openAttribute]
  have hnodes : ∀ f g : Element → Element, f e = g e → d.update id f = d.update id g := by
    intro f g hfg
    refine congrArg Document.mk (List.ext_getElem? fun i => ?_)
    have hf := nodes_update d id f i
    have hg := nodes_update d id g i
    rw [update] at hf hg
    rw [hf, hg]
    by_cases hi : id = i
    · simp [← hi, he, hfg]
    · simp [hi]
  rw [toggle, hremove]
  cases hwas : d.isOpen id with
  | true =>
    refine Prod.ext (hnodes _ _ ?_) rfl
    rw [hwas] at hopen
    simp [toggledAttributes, ← hopen]
  | false =>
    dsimp only
    rw [hset _ (size_update d id _)]
    refine Prod.ext ?_ rfl
    have htwice : ∀ f g : Element → Element, (d.update id f).update id g = d.update id (g ∘ f) := by
      intro f g
      simp [update, List.modify_modify_eq]
    rw [hwas] at hopen
    dsimp only
    rw [htwice]
    refine hnodes _ _ ?_
    simp [toggledAttributes, ← hopen]

/-! ### What toggling leaves as it was -/

/-- Two documents that differ in the openness of widgets at most. -/
structure SameButOpen (d d' : Document) : Prop where
  size_eq : d'.size = d.size
  tagName?_eq : ∀ id, d'.tagName? id = d.tagName? id
  parent?_eq : ∀ id, d'.parent? id = d.parent? id
  children_eq : ∀ id, d'.children id = d.children id
  /-- all attributes but one have their values -/
  attribute?_eq : ∀ id name, asciiLowercase name ≠ openAttribute →
    d'.attribute? id name = d.attribute? id name
  /-- what is no widget is as it was, with all its attributes -/
  element_eq : ∀ id, d.tagName? id ≠ some "DETAILS" → d'.nodes[id]? = d.nodes[id]?

theorem SameButOpen.refl (d : Document) : d.SameButOpen d :=
  ⟨rfl, fun _ => rfl, fun _ => rfl, fun _ => rfl, fun _ _ _ => rfl, fun _ _ => rfl⟩

theorem SameButOpen.trans {d'' : Document} (h : d.SameButOpen d') (h' : d'.SameButOpen d'') :
    d.SameButOpen d'' where
  size_eq := h'.size_eq.trans h.size_eq
  tagName?_eq id := (h'.tagName?_eq id).trans (h.tagName?_eq id)
  parent?_eq id := (h'.parent?_eq id).trans (h.parent?_eq id)
  children_eq id := (h'.children_eq id).trans (h.children_eq id)
  attribute?_eq id name hname :=
    (h'.attribute?_eq id name hname).trans (h.attribute?_eq id name hname)
  element_eq id htag :=
    (h'.element_eq id (by rwa [h.tagName?_eq])).trans (h.element_eq id htag)

theorem sameButOpen_toggled (h : d.tagName? id = some "DETAILS") : d.SameButOpen (d.toggled id) where
  size_eq := size_toggled d id
  tagName?_eq := tagName?_toggled d id
  parent?_eq := parent?_toggled d id
  children_eq := children_toggled d id
  attribute?_eq x _name hname := attribute?_toggled hname d id x
  element_eq _ htag := nodes_toggled_of_ne fun heq => htag (heq ▸ h)

/-! ### Summaries -/

/-- An element is a summary right below another one. -/
def IsSummaryOf (d : Document) (target id : NodeId) : Prop :=
  d.tagName? target = some "SUMMARY" ∧ d.parent? target = some id

instance (d : Document) (target id : NodeId) : Decidable (d.IsSummaryOf target id) :=
  inferInstanceAs (Decidable (_ ∧ _))

/-- A click is for the widget that the clicked element is a summary of. -/
theorem disclosure?_eq_some_iff :
    d.disclosure? target = some id ↔
      d.IsSummaryOf target id ∧ d.tagName? id = some "DETAILS" := by
  rw [disclosure?, IsSummaryOf]
  by_cases htag : d.tagName? target = some "SUMMARY"
  · cases hparent : d.parent? target with
    | none => simp [htag]
    | some p =>
      by_cases hp : d.tagName? p = some "DETAILS"
      · simp only [htag, hp, if_true, Option.some.injEq, true_and]
        exact ⟨fun h => ⟨h, h ▸ hp⟩, fun h => h.1⟩
      · simp only [htag, hp, if_true, if_false, reduceCtorEq, true_and, Option.some.injEq,
          false_iff, not_and]
        rintro rfl
        exact hp
  · simp [htag]

theorem lt_of_tagName? {tag : String} (h : d.tagName? id = some tag) : id < d.size := by
  obtain ⟨e, he, -⟩ := Option.map_eq_some_iff.1 h
  exact (List.getElem?_eq_some_iff.1 he).1

theorem SameButOpen.disclosure?_eq (h : d.SameButOpen d') (target : NodeId) :
    d'.disclosure? target = d.disclosure? target := by
  rw [disclosure?, disclosure?, h.tagName?_eq, h.parent?_eq]
  cases d.parent? target with
  | none => rfl
  | some p => simp only [h.tagName?_eq]

/-- The document after a click on an element: the widget that the click is for is toggled. -/
def clicked (d : Document) (target : NodeId) : Document :=
  match d.disclosure? target with
  | some id => d.toggled id
  | none => d

theorem sameButOpen_clicked (d : Document) (target : NodeId) : d.SameButOpen (d.clicked target) := by
  rw [clicked]
  split
  · next id h => exact sameButOpen_toggled (disclosure?_eq_some_iff.1 h).2
  · exact .refl d

theorem isOpen_clicked (d : Document) (target id : NodeId) :
    (d.clicked target).isOpen id = (d.isOpen id ^^ decide (d.disclosure? target = some id)) := by
  rw [clicked]
  split
  · next widget h =>
    rw [isOpen_toggled (lt_of_tagName? (disclosure?_eq_some_iff.1 h).2)]
    simp [h]
  · next h => simp [h]

theorem sameButOpen_foldl_clicked (d : Document) (targets : List NodeId) :
    d.SameButOpen (targets.foldl clicked d) := by
  induction targets generalizing d with
  | nil => exact .refl d
  | cons target targets ih => exact (d.sameButOpen_clicked target).trans (ih _)

theorem isOpen_foldl_clicked (d : Document) (targets : List NodeId) (id : NodeId) :
    (targets.foldl clicked d).isOpen id =
      (d.isOpen id ^^ decide (Odd (targets.countP fun t => d.disclosure? t = some id))) := by
  induction targets generalizing d with
  | nil => simp
  | cons target targets ih =>
    rw [List.foldl_cons, ih, isOpen_clicked, List.countP_cons]
    simp only [(d.sameButOpen_clicked target).disclosure?_eq]
    by_cases ht : d.disclosure? target = some id
    · simp only [ht, decide_true, if_true, Nat.odd_add_one, decide_not, Bool.xor_true]
      rw [Bool.not_xor, Bool.xor_not]
    · simp [ht]

end Document

/-! ### Clicks -/

namespace Dispatcher

/-- Dispatches clicks one after the other, and tells what has become of each. -/
def dispatchAll (x : Dispatcher) :
    Document → List NodeId → Document × List (Except DocumentError ClickOutcome)
  | d, [] => (d, [])
  | d, target :: targets =>
    let (d, outcome) := (x.dispatch d target).value
    let (d, outcomes) := dispatchAll x d targets
    (d, outcome :: outcomes)

/-- The dispatcher whose only listener toggles widgets. -/
def toggling : Dispatcher := ⟨[disclosureToggle]⟩

variable {d : Document} {targets : List NodeId}

/-- What one click does: the widget it is for is toggled, once, by the listener and not by the
page. -/
theorem dispatch_toggling {target : NodeId} (h : target < d.size) :
    (toggling.dispatch d target).value =
      (d.clicked target, .ok ⟨(d.disclosure? target).isSome, 1, []⟩) := by
  have hcontains : d.contains target = true := Document.contains_iff.2 h
  rw [dispatch]
  cases hwidget : d.disclosure? target with
  | none =>
    simp [hcontains, toggling, notify, disclosureToggle, hwidget, defaultAction, Document.clicked]
  | some id =>
    have hid := Document.lt_of_tagName? (Document.disclosure?_eq_some_iff.1 hwidget).2
    simp [hcontains, toggling, notify, disclosureToggle, hwidget, Document.toggle_eq hid,
      Document.clicked]

/-- Dispatchers under which a click toggles the widget it is for leave the same document after any
clicks.  What they report of each click is what they report of it at the start. -/
theorem dispatchAll_eq {x : Dispatcher} {outcome : Document → NodeId → ClickOutcome}
    (hdispatch : ∀ {d : Document} {t : NodeId}, t < d.size →
      (x.dispatch d t).value = (d.clicked t, .ok (outcome d t)))
    (houtcome : ∀ {d d' : Document} (t : NodeId), d.SameButOpen d' → outcome d' t = outcome d t)
    (h : ∀ t ∈ targets, t < d.size) :
    x.dispatchAll d targets =
      (targets.foldl Document.clicked d, targets.map fun t => .ok (outcome d t)) := by
  induction targets generalizing d with
  | nil => rfl
  | cons target targets ih =>
    obtain ⟨htarget, htargets⟩ := List.forall_mem_cons.1 h
    have hstep := d.sameButOpen_clicked target
    have hlater : ∀ t ∈ targets, t < (d.clicked target).size := by
      intro t ht
      rw [hstep.size_eq]
      exact htargets t ht
    rw [dispatchAll, hdispatch htarget]
    dsimp only
    rw [ih hlater, List.foldl_cons, List.map_cons]
    simp only [houtcome _ hstep]

theorem dispatchAll_toggling (h : ∀ t ∈ targets, t < d.size) :
    toggling.dispatchAll d targets =
      (targets.foldl Document.clicked d,
        targets.map fun t => .ok ⟨(d.disclosure? t).isSome, 1, []⟩) := by
  refine dispatchAll_eq dispatch_toggling (fun t hsame => ?_) h
  rw [hsame.disclosure?_eq]

theorem sameButOpen_dispatchAll (h : ∀ t ∈ targets, t < d.size) :
    d.SameButOpen (toggling.dispatchAll d targets).1 := by
  rw [dispatchAll_toggling h]
  exact d.sameButOpen_foldl_clicked targets

theorem isOpen_dispatchAll (h : ∀ t ∈ targets, t < d.size) (id : NodeId) :
    (toggling.dispatchAll d targets).1.isOpen id =
      (d.isOpen id ^^ decide (Odd (targets.countP fun t => d.disclosure? t = some id))) := by
  rw [dispatchAll_toggling h]
  exact d.isOpen_foldl_clicked targets id

theorem outcomes_dispatchAll (h : ∀ t ∈ targets, t < d.size) :
    (toggling.dispatchAll d targets).2 =
      targets.map fun t => .ok ⟨(d.disclosure? t).isSome, 1, []⟩ := by
  rw [dispatchAll_toggling h]

/-- After any number of clicks a widget is open if it was so before, changed once for each click on
one of its summaries.  Nothing else has changed.  Each click reports that the page was prevented
from acting exactly when it was on a summary of a widget, and none that the page did anything. -/
theorem dispatchAll_toggles (d : Document) (targets : List NodeId)
    (h : ∀ t ∈ targets, t < d.size) :
    (∀ id, d.tagName? id = some "DETAILS" →
      (toggling.dispatchAll d targets).1.isOpen id =
        (d.isOpen id ^^ decide (Odd (targets.countP fun t => d.IsSummaryOf t id)))) ∧
    d.SameButOpen (toggling.dispatchAll d targets).1 ∧
    List.Forall₂ (fun t outcome => ∃ c : ClickOutcome, outcome = .ok c ∧
        (c.defaultPrevented = true ↔ ∃ id, d.IsSummaryOf t id ∧ d.tagName? id = some "DETAILS") ∧
        c.sideEffects = [])
      targets (toggling.dispatchAll d targets).2 := by
  refine ⟨fun id hid => ?_, sameButOpen_dispatchAll h, ?_⟩
  · rw [isOpen_dispatchAll h id]
    simp [Document.disclosure?_eq_some_iff, hid]
  · rw [outcomes_dispatchAll h, List.forall₂_map_right_iff]
    refine List.forall₂_same.2 fun t _ => ⟨_, rfl, ?_, rfl⟩
    simp [Option.isSome_iff_exists, Document.disclosure?_eq_some_iff]

/-- A widget with two summaries inside another one: clicks on either of the two count for the inner
widget, and the outer one has a click of its own. -/
theorem dispatchAll_toggles_nested :
    ∃ d : Document, (∀ t ∈ [2, 4, 5, 0, 5], t < d.size) ∧
      d.outerHtml 0 = "<html><details><summary></summary><details open><summary></summary>" ++
        "<summary></summary></details></details></html>" ∧
      (toggling.dispatchAll d [2, 4, 5, 0, 5]).1.isOpen 1 = true ∧
      (toggling.dispatchAll d [2, 4, 5, 0, 5]).1.isOpen 3 = false ∧
      d.SameButOpen (toggling.dispatchAll d [2, 4, 5, 0, 5]).1 := by
  let d : Document := ⟨[
    { tagName := "HTML", children := [1] },
    { tagName := "DETAILS", parent := some 0, children := [2, 3] },
    { tagName := "SUMMARY", parent := some 1 },
    { tagName := "DETAILS", attributes := [("open", "")], parent := some 1, children := [4, 5] },
    { tagName := "SUMMARY", parent := some 3 },
    { tagName := "SUMMARY", parent := some 3 }]⟩
  have htargets : ∀ t ∈ [2, 4, 5, 0, 5], t < d.size := by decide
  obtain ⟨hopen, hsame, -⟩ := dispatchAll_toggles d [2, 4, 5, 0, 5] htargets
  refine ⟨d, htargets, by decide +kernel, ?_, ?_, hsame⟩
  · rw [hopen 1 (by decide)]
    decide +kernel
  · rw [hopen 3 (by decide)]
    decide +kernel

end Dispatcher

end Page

end Highlighting
