import Highlighting.Proofs.Page.Histories

/-!
# Calls that are refused

A call makes all its checks before it changes anything, and so a document is as it was when a call
is refused.  Adding an element to another one is two calls: the element is made, and then it is
appended, which may be refused while the element stays.  This happens only for a parent that the
document does not have (`Document.IsForest.appendElement_value`), and the element that stays is the
last one and stands alone (`Document.ComesAbout.change_of_refused`).
-/

namespace Highlighting

namespace Page

/-- The error of a call, if it has one. -/
def errorOf? {α : Type} : Except DocumentError α → Option DocumentError
  | .error e => some e
  | .ok _ => none

namespace Document

open Relation

variable {d : Document} {id p child : NodeId} {tag name value : String} {e : DocumentError}

/-- Why a call is refused, if it is. -/
def refusal? (d : Document) : Change → Option DocumentError
  | .createElement tag => errorOf? (d.createElement tag).2
  | .appendChild parent child => errorOf? (d.appendChild parent child).2
  | .appendElement parent tag => errorOf? (d.appendElement parent tag).2
  | .setAttribute id name value => errorOf? (d.setAttribute id name value).2
  | .removeAttribute id name => errorOf? (d.removeAttribute id name).2

/-! ### Calls that change one thing -/

theorem createElement_of_refused (h : errorOf? (d.createElement tag).2 = some e) :
    (d.createElement tag).1 = d := by
  unfold createElement at h ⊢
  split at h
  · cases h
  · next hname => rw [if_neg hname]

theorem appendChild_of_refused (h : errorOf? (d.appendChild p child).2 = some e) :
    (d.appendChild p child).1 = d := by
  unfold appendChild at h ⊢
  split_ifs at h ⊢
  · rfl
  · rfl
  · rfl
  · cases h

theorem setAttribute_of_refused (h : errorOf? (d.setAttribute id name value).2 = some e) :
    (d.setAttribute id name value).1 = d := by
  unfold setAttribute at h ⊢
  split_ifs at h ⊢
  · rfl
  · rfl
  · cases h

theorem removeAttribute_of_refused (h : errorOf? (d.removeAttribute id name).2 = some e) :
    (d.removeAttribute id name).1 = d := by
  unfold removeAttribute at h ⊢
  split_ifs at h ⊢
  · rfl
  · cases h

/-! ### Adding an element to another one -/

/-- The document with one more element, which stands alone. -/
def withElement (d : Document) (tag : String) : Document :=
  ⟨d.nodes ++ [{ tagName := asciiUppercase tag }]⟩

theorem createElement_of_isName (h : isName tag = true) :
    d.createElement tag = (d.withElement tag, .ok d.size) := by
  rw [createElement, if_pos h, withElement]

theorem size_withElement (d : Document) (tag : String) : (d.withElement tag).size = d.size + 1 := by
  simp [withElement, size]

theorem contains_withElement {x : NodeId} :
    (d.withElement tag).contains x = true ↔ x ≤ d.size := by
  rw [contains_iff, size_withElement, Nat.lt_succ_iff]

theorem parent?_withElement (d : Document) (tag : String) (x : NodeId) :
    (d.withElement tag).parent? x = d.parent? x := by
  rw [parent?, parent?, withElement, getElem?_concat]
  split
  · next hx => simp [hx, nodes_size]
  · rfl

theorem IsForest.withElement (h : d.IsForest) (hname : isName tag = true) :
    (d.withElement tag).IsForest := by
  have hcreated := h.createElement tag
  rwa [createElement_of_isName hname] at hcreated

/-- An element that the document had before is not below the new one. -/
theorem IsForest.not_isWithin_new (h : d.IsForest) (hp : p < d.size) :
    ¬ (d.withElement tag).IsWithin p d.size := by
  intro hwithin
  rcases hwithin.cases_tail with heq | ⟨x, -, hx⟩
  · exact absurd heq (Nat.ne_of_gt hp)
  · rw [IsChildOf, parent?_withElement] at hx
    exact absurd (h.parent_lt x d.size hx) (Nat.lt_irrefl d.size)

theorem appendElement_of_not_isName (h : isName tag = false) (d : Document) (p : NodeId) :
    d.appendElement p tag = (d, .error (.invalidTagName tag)) := by
  simp [appendElement, createElement, h]

/-- For a parent that the document does not have, an element is made, and then it is not appended:
there is no such parent, or it is the new element itself. -/
theorem appendElement_beyond (hname : isName tag = true) (hp : d.size ≤ p) :
    d.appendElement p tag =
      (d.withElement tag,
        .error (if p = d.size then .wouldCycle p p else .unknownNode p)) := by
  rw [appendElement, createElement_of_isName hname]
  dsimp only
  rw [appendChild]
  by_cases heq : p = d.size
  · subst heq
    have hcontains : (d.withElement tag).contains d.size = true :=
      contains_withElement.2 (Nat.le_refl d.size)
    have habove : (d.withElement tag).isAbove d.size (d.withElement tag).size d.size = true := by
      rw [size_withElement, isAbove, beq_self_eq_true, Bool.true_or]
    simp [hcontains, habove]
  · have hcontains : (d.withElement tag).contains p = false := by
      rw [← Bool.not_eq_true, contains_withElement]
      exact fun hle => heq (Nat.le_antisymm hle hp)
    simp [hcontains, heq]

/-- With a name for a tag, an element is added to each element that the document has, and to no
other. -/
theorem IsForest.appendElement_value (h : d.IsForest) (hname : isName tag = true) (p : NodeId) :
    (d.appendElement p tag).2 =
      if p < d.size then .ok d.size
      else .error (if p = d.size then .wouldCycle p p else .unknownNode p) := by
  split
  · next hp =>
    have hparent : (d.withElement tag).contains p = true :=
      contains_withElement.2 (Nat.le_of_lt hp)
    have hchild : (d.withElement tag).contains d.size = true :=
      contains_withElement.2 (Nat.le_refl d.size)
    have habove : (d.withElement tag).isAbove d.size (d.withElement tag).size p = false := by
      have hclimbs : (d.withElement tag).Climbs d.size p
          ((d.withElement tag).isAbove d.size (d.withElement tag).size p) :=
        ((h.withElement hname).climbs (contains_iff.1 hparent)).2 rfl
      rw [← Bool.not_eq_true, hclimbs.iff_reflTransGen]
      exact h.not_isWithin_new hp
    rw [Document.appendElement, createElement_of_isName hname]
    simp [Document.appendChild, hparent, hchild, habove]
  · next hp => rw [appendElement_beyond hname (Nat.le_of_not_lt hp)]

/-- A call that is refused leaves the document as it was, unless it adds an element with a name for
its tag to another one.  Then the document does not have this other one, and it has one more element
than before, the last one, which stands alone; the others are as they were. -/
theorem ComesAbout.change_of_refused (h : d.ComesAbout) (c : Change) (e : DocumentError)
    (hc : d.refusal? c = some e) :
    ((∀ parent tag, c = .appendElement parent tag → isName tag = false) → d.change c = d) ∧
    ∀ parent tag, c = .appendElement parent tag → isName tag = true →
      d.size ≤ parent ∧
      e = (if parent = d.size then .wouldCycle parent parent else .unknownNode parent) ∧
      (d.change c).nodes =
        d.nodes ++ [⟨asciiUppercase tag, [], none, []⟩] := by
  refine ⟨fun hother => ?_, ?_⟩
  · cases c with
    | createElement tag => exact createElement_of_refused hc
    | appendChild parent child => exact appendChild_of_refused hc
    | appendElement parent tag =>
      rw [Document.change, appendElement_of_not_isName (hother parent tag rfl)]
    | setAttribute id name value => exact setAttribute_of_refused hc
    | removeAttribute id name => exact removeAttribute_of_refused hc
  · rintro parent tag rfl hname
    have hvalue := h.isForest.appendElement_value hname parent
    rw [refusal?, hvalue] at hc
    split at hc
    · cases hc
    · next hparent =>
      have hbeyond := Nat.le_of_not_lt hparent
      refine ⟨hbeyond, (Option.some.inj hc).symm, ?_⟩
      rw [Document.change, appendElement_beyond hname hbeyond, withElement]

/-- An element that is to be appended to the one below it, an element with no name for its tag, and
an element for a parent that is not there: the last call alone leaves something. -/
theorem change_of_refused_widget : ∃ d : Document, d.ComesAbout ∧ d.size = 3 ∧
    d.refusal? (.appendChild 2 1) = some (.wouldCycle 2 1) ∧ d.change (.appendChild 2 1) = d ∧
    d.refusal? (.appendElement 7 "1p") = some (.invalidTagName "1p") ∧
    d.change (.appendElement 7 "1p") = d ∧
    d.refusal? (.appendElement 7 "p") = some (.unknownNode 7) ∧
    (d.change (.appendElement 7 "p")).nodes = d.nodes ++ [⟨"P", [], none, []⟩] := by
  have hcomes := (ComesAbout.empty.change (.appendElement 0 "details")).change
    (.appendElement 1 "summary")
  have hcycle : ((empty.change (.appendElement 0 "details")).change
      (.appendElement 1 "summary")).refusal? (.appendChild 2 1) = some (.wouldCycle 2 1) := by
    decide +kernel
  have hinvalid : ((empty.change (.appendElement 0 "details")).change
      (.appendElement 1 "summary")).refusal? (.appendElement 7 "1p") =
        some (.invalidTagName "1p") := by
    decide +kernel
  have hunknown : ((empty.change (.appendElement 0 "details")).change
      (.appendElement 1 "summary")).refusal? (.appendElement 7 "p") = some (.unknownNode 7) := by
    decide +kernel
  refine ⟨_, hcomes, by decide +kernel, hcycle, ?_, hinvalid, ?_, hunknown, ?_⟩
  · exact (hcomes.change_of_refused _ _ hcycle).1 (by simp)
  · refine (hcomes.change_of_refused _ _ hinvalid).1 fun parent tag heq => ?_
    cases heq
    decide +kernel
  · exact ((hcomes.change_of_refused _ _ hunknown).2 7 "p" rfl (by decide +kernel)).2.2

/-- An element that cannot be appended, because there is no such parent, stays in the document. -/
theorem appendElement_leaves_element : ∃ (d : Document) (parent : NodeId) (tag : String)
    (e : DocumentError), d.ComesAbout ∧ (d.appendElement parent tag).2 = .error e ∧
    d.size = 1 ∧ (d.appendElement parent tag).1.size = 2 := by
  refine ⟨.empty, 5, "div", .unknownNode 5, .empty, ?_, rfl, ?_⟩
  · decide +kernel
  · decide +kernel

end Document

end Page

end Highlighting
