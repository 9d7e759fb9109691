import Mathlib
import Highlighting.Proofs.Page.Histories

/-!
# The names in a document

The tags of a document and the names of its attributes are names, whatever changes and clicks it
comes about by, and its tags are in capitals (`Document.ComesAbout.isNamed`).  So no tag and no
name of an attribute has a character in it that means something in markup.
-/

namespace Highlighting

namespace Page

/-! ### Names in either letter case -/

/-- The characters that names may have behind their first one. -/
def isNameChar (c : Char) : Bool := c.isAlphanum || c == '-' || c == '_'

theorem isNameChar_of_isAlpha {c : Char} (h : c.isAlpha = true) : isNameChar c = true := by
  simp [isNameChar, Char.isAlphanum, h]

theorem isNameChar_toLower (c : Char) : isNameChar c.toLower = isNameChar c := by
  by_cases hupper : c.isUpper = true
  · have halpha : c.isAlpha = true := by simp [Char.isAlpha, hupper]
    rw [isNameChar_of_isAlpha halpha]
    exact isNameChar_of_isAlpha ((Char.isAlpha_toLower_eq_isAlpha c).trans halpha)
  · rw [Char.toLower_eq_of_not_isUpper hupper]

theorem isNameChar_toUpper (c : Char) : isNameChar c.toUpper = isNameChar c := by
  by_cases hlower : c.isLower = true
  · have halpha : c.isAlpha = true := by simp [Char.isAlpha, hlower]
    rw [isNameChar_of_isAlpha halpha]
    exact isNameChar_of_isAlpha ((Char.isAlpha_toUpper_eq_isAlpha c).trans halpha)
  · rw [Char.toUpper_eq_of_not_isLower hlower]

/-- A name begins with a letter. -/
theorem isName_iff {s : String} : isName s = true ↔
    ∃ c cs, s.toList = c :: cs ∧ c.isAlpha = true ∧ ∀ x ∈ c :: cs, isNameChar x = true := by
  rw [isName]
  cases s.toList with
  | nil => simp
  | cons c cs =>
    have hrest : (cs.all fun c => c.isAlphanum || c == '-' || c == '_') = true ↔
        ∀ x ∈ cs, isNameChar x = true := List.all_eq_true
    dsimp only
    rw [Bool.and_eq_true, hrest]
    constructor
    · rintro ⟨hc, hcs⟩
      exact ⟨c, cs, rfl, hc, List.forall_mem_cons.2 ⟨isNameChar_of_isAlpha hc, hcs⟩⟩
    · rintro ⟨_, _, ⟨rfl, rfl⟩, hc, hall⟩
      exact ⟨hc, (List.forall_mem_cons.1 hall).2⟩

/-- A name stays one when its letters are replaced one by one. -/
theorem isName_map {f : Char → Char} (halpha : ∀ c, (f c).isAlpha = c.isAlpha)
    (hname : ∀ c, isNameChar (f c) = isNameChar c) {s : String} (h : isName s = true) :
    isName (String.ofList (s.toList.map f)) = true := by
  obtain ⟨c, cs, hs, hc, hall⟩ := isName_iff.1 h
  refine isName_iff.2 ⟨f c, cs.map f, ?_, (halpha c).trans hc, ?_⟩
  · rw [hs, String.toList_ofList, List.map_cons]
  · rw [← List.map_cons, List.forall_mem_map]
    exact fun x hx => (hname x).trans (hall x hx)

theorem isName_asciiLowercase {s : String} (h : isName s = true) :
    isName (asciiLowercase s) = true :=
  isName_map Char.isAlpha_toLower_eq_isAlpha isNameChar_toLower h

theorem isName_asciiUppercase {s : String} (h : isName s = true) :
    isName (asciiUppercase s) = true :=
  isName_map Char.isAlpha_toUpper_eq_isAlpha isNameChar_toUpper h

theorem asciiUppercase_asciiUppercase (s : String) :
    asciiUppercase (asciiUppercase s) = asciiUppercase s := by
  have hcomp : Char.toUpper ∘ Char.toUpper = Char.toUpper := funext Char.toUpper_toUpper_eq_toUpper
  rw [asciiUppercase, asciiUppercase, String.toList_ofList, List.map_map, hcomp]

theorem asciiUppercase_asciiLowercase (s : String) :
    asciiUppercase (asciiLowercase s) = asciiUppercase s := by
  have hcomp : Char.toUpper ∘ Char.toLower = Char.toUpper := funext Char.toUpper_toLower_eq_toUpper
  rw [asciiUppercase, asciiLowercase, String.toList_ofList, List.map_map, hcomp, asciiUppercase]

/-! ### Elements -/

/-- The tag of an element is a name in capitals, and the names of its attributes are names. -/
structure Element.IsNamed (e : Element) : Prop where
  isName_tagName : isName e.tagName = true
  uppercase_tagName : asciiUppercase e.tagName = e.tagName
  isName_attribute : ∀ a ∈ e.attributes, isName a.1 = true

theorem isNamed_of_isName {tag : String} (h : isName tag = true) :
    Element.IsNamed { tagName := asciiUppercase tag } where
  isName_tagName := isName_asciiUppercase h
  uppercase_tagName := asciiUppercase_asciiUppercase tag
  isName_attribute := by simp

theorem mem_setAttributeIn {name value : String} {a : String × String}
    {as : List (String × String)} (h : a ∈ setAttributeIn name value as) :
    a = (name, value) ∨ a ∈ as := by
  induction as with
  | nil => exact .inl (List.mem_singleton.1 h)
  | cons b as ih =>
    rw [setAttributeIn] at h
    split at h
    · exact List.mem_cons.1 h
    · split at h
      · exact (List.mem_cons.1 h).imp_right (List.mem_cons_of_mem b)
      · rcases List.mem_cons.1 h with rfl | h
        · exact .inr List.mem_cons_self
        · exact (ih h).imp_right (List.mem_cons_of_mem b)

namespace Document

variable {d : Document}

/-- The tags of all elements of a document are names in capitals, and the names of their attributes
are names. -/
def IsNamed (d : Document) : Prop :=
  ∀ (id : NodeId) (e : Element), d.nodes[id]? = some e → e.IsNamed

theorem isNamed_empty : empty.IsNamed := by
  have hhtml : asciiUppercase "html" = "HTML" := by
    decide +kernel
  have hnamed : Element.IsNamed { tagName := "HTML" } :=
    hhtml ▸ isNamed_of_isName (by decide +kernel)
  intro id e he
  cases id with
  | zero => exact Option.some.inj he ▸ hnamed
  | succ id => cases he

theorem IsNamed.update (h : d.IsNamed) (id : NodeId) {f : Element → Element}
    (hf : ∀ e, e.IsNamed → (f e).IsNamed) : (d.update id f).IsNamed := by
  intro x e he
  rw [nodes_update] at he
  split at he
  · obtain ⟨e', he', rfl⟩ := Option.map_eq_some_iff.1 he
    exact hf e' (h x e' he')
  · exact h x e he

theorem IsNamed.createElement (h : d.IsNamed) (tag : String) : (d.createElement tag).1.IsNamed := by
  rw [Document.createElement]
  split
  · next hname =>
    intro x e he
    rw [getElem?_concat] at he
    split at he
    · exact Option.some.inj he ▸ isNamed_of_isName hname
    · exact h x e he
  · exact h

theorem IsNamed.appendChild (h : d.IsNamed) (parent child : NodeId) :
    (d.appendChild parent child).1.IsNamed := by
  have hlinks : ∀ (up : Element → Option NodeId) (down : Element → List NodeId) (e : Element),
      e.IsNamed → Element.IsNamed { e with parent := up e, children := down e } :=
    fun _ _ _ he => ⟨he.isName_tagName, he.uppercase_tagName, he.isName_attribute⟩
  have hdetached : (d.detach child).IsNamed := by
    unfold detach
    split
    · exact h.update _ (hlinks _ _)
    · exact h
  unfold Document.appendChild
  split_ifs
  · exact h
  · exact h
  · exact h
  · exact (hdetached.update child (hlinks _ _)).update parent (hlinks _ _)

theorem IsNamed.setAttribute (h : d.IsNamed) (id : NodeId) (name value : String) :
    (d.setAttribute id name value).1.IsNamed := by
  unfold Document.setAttribute
  split_ifs with _ hname
  · exact h
  · exact h
  · apply h.update id
    intro e he
    refine ⟨he.isName_tagName, he.uppercase_tagName, fun a ha => ?_⟩
    rcases mem_setAttributeIn ha with rfl | ha
    · exact isName_asciiLowercase (by simpa using hname)
    · exact he.isName_attribute a ha

theorem IsNamed.removeAttribute (h : d.IsNamed) (id : NodeId) (name : String) :
    (d.removeAttribute id name).1.IsNamed := by
  unfold Document.removeAttribute
  split_ifs
  · exact h
  · apply h.update id
    intro e he
    refine ⟨he.isName_tagName, he.uppercase_tagName, fun a ha => ?_⟩
    exact he.isName_attribute a (List.mem_of_mem_filter ha)

theorem isKept_isNamed : IsKept IsNamed where
  createElement _ tag h := h.createElement tag
  appendChild _ parent child h := h.appendChild parent child
  setAttribute _ id name value h := h.setAttribute id name value
  removeAttribute _ id name h := h.removeAttribute id name

theorem ComesAbout.isNamed (h : d.ComesAbout) : d.IsNamed :=
  isKept_isNamed.of_comesAbout isNamed_empty h

end Document

end Page

end Highlighting
