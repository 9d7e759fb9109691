import Mathlib.Data.List.Perm.Subperm
import Highlighting.Proofs.Page.Forest

/-!
# Walks through a forest end

Two recursions go along the links of a document and have no bound of their own: the search for an
element upwards from another one, and the writing of an element with all that is below it.
`Document.Climbs` and `Document.Writes` are these recursions as they are, without a number of steps.
In a forest both come to an end, in as many steps as the document has elements
(`IsForest.climbs`, `IsForest.writes`): the way that a recursion has come consists of different
elements (`Trail`).  The elements that are written are those below the element, each one once.
-/

namespace Highlighting

namespace Page

open Relation

/-! ### Trails -/

/-- The elements that a recursion along a relation has come by to reach one: all different, and all
leading to it. -/
def Trail (rel : NodeId → NodeId → Prop) (path : List NodeId) (id : NodeId) : Prop :=
  path.Nodup ∧ ∀ x ∈ path, TransGen rel x id

section Trail

variable {rel : NodeId → NodeId → Prop} {path : List NodeId} {a b : NodeId} {n : Nat}

theorem trail_nil (rel : NodeId → NodeId → Prop) (id : NodeId) : Trail rel [] id := by
  simp [Trail]

theorem Trail.cons (h : Trail rel path a) (hacyclic : ∀ x, ¬ TransGen rel x x) (hab : rel a b) :
    Trail rel (a :: path) b := by
  refine ⟨List.nodup_cons.2 ⟨fun hmem => hacyclic a (h.2 a hmem), h.1⟩, fun x hx => ?_⟩
  rcases List.mem_cons.1 hx with rfl | hx
  · exact .single hab
  · exact (h.2 x hx).tail hab

/-- A trail among `n` elements has fewer than `n` elements. -/
theorem Trail.length_lt (h : Trail rel path a) (hacyclic : ∀ x, ¬ TransGen rel x x)
    (hlt : ∀ x y, rel x y → x < n) (ha : a < n) : path.length < n := by
  have hnodup : (a :: path).Nodup :=
    List.nodup_cons.2 ⟨fun hmem => hacyclic a (h.2 a hmem), h.1⟩
  have hsubset : a :: path ⊆ List.range n := by
    intro x hx
    rcases List.mem_cons.1 hx with rfl | hx
    · exact List.mem_range.2 ha
    · obtain ⟨y, hy, -⟩ := TransGen.head'_iff.1 (h.2 x hx)
      exact List.mem_range.2 (hlt x y hy)
  have hle := (List.subperm_of_subset hnodup hsubset).length_le
  simp only [List.length_cons, List.length_range] at hle
  omega

end Trail

namespace Document

variable {d : Document} {id above x : NodeId} {path ids visits : List NodeId} {b b' : Bool}
  {out : List Char}

/-! ### Upwards -/

/-- The search for an element from another one upwards ends with an answer. -/
inductive Climbs (d : Document) (above : NodeId) : NodeId → Bool → Prop
  | found : Climbs d above above true
  | top {id : NodeId} {e : Element} (hne : id ≠ above) (he : d.nodes[id]? = some e)
      (hparent : e.parent = none) : Climbs d above id false
  | up {id p : NodeId} {e : Element} {b : Bool} (hne : id ≠ above) (he : d.nodes[id]? = some e)
      (hparent : e.parent = some p) (hp : Climbs d above p b) : Climbs d above id b

theorem Climbs.unique (h : d.Climbs above id b) (h' : d.Climbs above id b') : b = b' := by
  induction h with
  | found =>
    cases h' with
    | found => rfl
    | top hne => exact absurd rfl hne
    | up hne => exact absurd rfl hne
  | top hne he hparent =>
    cases h' with
    | found => exact absurd rfl hne
    | top => rfl
    | up _ he' hparent' => simp_all
  | up hne he hparent _ ih =>
    cases h' with
    | found => exact absurd rfl hne
    | top _ he' hparent' => simp_all
    | up _ he' hparent' hp' =>
      obtain rfl := Option.some.inj (he.symm.trans he')
      obtain rfl := Option.some.inj (hparent.symm.trans hparent')
      exact ih hp'

/-- The elements on the way up are all different, so the way is no longer than the document. -/
theorem IsForest.climbs_within (h : d.IsForest) (above : NodeId) :
    ∀ (n : Nat) (id : NodeId) (path : List NodeId), Trail d.IsChildOf path id →
      path.length + n = d.size → id < d.size → d.Climbs above id (d.isAbove above n id) := by
  intro n
  induction n with
  | zero =>
    intro id path htrail hlength hid
    have := htrail.length_lt h.acyclic (fun x y => lt_of_parent?) hid
    omega
  | succ n ih =>
    intro id path htrail hlength hid
    obtain ⟨e, he⟩ := exists_element hid
    rw [isAbove]
    by_cases hne : id = above
    · simp [hne, Climbs.found]
    · have hparent? : d.parent? id = e.parent := by simp [parent?, he]
      have hbeq : (id == above) = false := by simp [hne]
      rw [hbeq, Bool.false_or, hparent?]
      cases hparent : e.parent with
      | none => exact .top hne he hparent
      | some p =>
        have hup : d.IsChildOf id p := hparent?.trans hparent
        refine .up hne he hparent (ih p (id :: path) ?_ ?_ ?_)
        · exact htrail.cons h.acyclic hup
        · simp only [List.length_cons]
          omega
        · exact h.parent_lt id p hup

/-- In a forest the search upwards ends, and with the answer that `isAbove` gives. -/
theorem IsForest.climbs (h : d.IsForest) (hid : id < d.size) :
    d.Climbs above id b ↔ b = d.isAbove above d.size id := by
  have hclimbs := h.climbs_within above d.size id [] (trail_nil _ id) (by simp) hid
  exact ⟨fun hb => hb.unique hclimbs, fun hb => hb ▸ hclimbs⟩

/-- What the search finds is above the element or the element itself. -/
theorem Climbs.iff_reflTransGen (hb : d.Climbs above id b) :
    b = true ↔ ReflTransGen d.IsChildOf id above := by
  induction hb with
  | found => simp [ReflTransGen.refl]
  | top hne he hparent =>
    refine ⟨fun h => absurd h Bool.false_ne_true, fun h => ?_⟩
    rcases h.cases_head with rfl | ⟨p, hp, -⟩
    · exact absurd rfl hne
    · simp [IsChildOf, parent?, he, hparent] at hp
  | up hne he hparent _ ih =>
    rw [ih]
    refine ⟨fun h => .head (by simp [IsChildOf, parent?, he, hparent]) h, fun h => ?_⟩
    rcases h.cases_head with rfl | ⟨p, hp, hrest⟩
    · exact absurd rfl hne
    · simp only [IsChildOf, parent?, he, Option.bind_some, hparent, Option.some.injEq] at hp
      exact hp ▸ hrest

/-! ### Downwards -/

/-- The markup in front of what is below an element. -/
def startTag (e : Element) : List Char :=
  '<' :: (asciiLowercase e.tagName).toList ++ attributesMarkup e.attributes ++ ['>']

/-- The markup behind what is below an element. -/
def endTag (e : Element) : List Char := ['<', '/'] ++ (asciiLowercase e.tagName).toList ++ ['>']

/-- Writing elements one after the other, each with all that is below it, ends; it visits elements
in an order and has an outcome. -/
inductive Writes (d : Document) : List NodeId → List NodeId → List Char → Prop
  | nil : Writes d [] [] []
  | missing {id : NodeId} {ids visits : List NodeId} {out : List Char}
      (hnone : d.nodes[id]? = none) (hrest : Writes d ids visits out) :
      Writes d (id :: ids) visits out
  | element {id : NodeId} {ids below visits : List NodeId} {e : Element} {inner out : List Char}
      (he : d.nodes[id]? = some e) (hbelow : Writes d e.children below inner)
      (hrest : Writes d ids visits out) :
      Writes d (id :: ids) (id :: (below ++ visits)) (startTag e ++ inner ++ endTag e ++ out)

theorem Writes.unique {visits' : List NodeId} {out' : List Char} (h : d.Writes ids visits out)
    (h' : d.Writes ids visits' out') : visits = visits' ∧ out = out' := by
  induction h generalizing visits' out' with
  | nil =>
    cases h'
    exact ⟨rfl, rfl⟩
  | missing hnone _ ih =>
    cases h' with
    | missing _ hrest' => exact ih hrest'
    | element he' => simp [hnone] at he'
  | element he _ _ ihbelow ihrest =>
    cases h' with
    | missing hnone' => simp [he] at hnone'
    | element he' hbelow' hrest' =>
      obtain rfl := Option.some.inj (he.symm.trans he')
      obtain ⟨rfl, rfl⟩ := ihbelow hbelow'
      obtain ⟨rfl, rfl⟩ := ihrest hrest'
      exact ⟨rfl, rfl⟩

theorem markupTo_succ {e : Element} (n : Nat) (he : d.nodes[id]? = some e) :
    d.markupTo (n + 1) id = startTag e ++ e.children.flatMap (d.markupTo n) ++ endTag e := by
  simp [markupTo, he, startTag, endTag]

theorem children_eq {e : Element} (he : d.nodes[id]? = some e) : d.children id = e.children := by
  simp [children, he]

/-- The elements on the way down are all different, so the way is no longer than the document. -/
theorem IsForest.writes_within (h : d.IsForest) :
    ∀ (n : Nat) (ids path : List NodeId), path.length + n = d.size →
      (∀ id ∈ ids, id < d.size ∧ Trail (fun p c => d.IsChildOf c p) path id) →
        ∃ visits, d.Writes ids visits (ids.flatMap (d.markupTo n)) := by
  have hacyclic : ∀ x, ¬ TransGen (fun p c => d.IsChildOf c p) x x := fun x hx =>
    h.acyclic x (transGen_swap.1 hx)
  intro n
  induction n with
  | zero =>
    intro ids path hlength hids
    cases ids with
    | nil => exact ⟨[], .nil⟩
    | cons id ids =>
      obtain ⟨hid, htrail⟩ := hids id List.mem_cons_self
      have := htrail.length_lt hacyclic (fun p c hc => h.parent_lt c p hc) hid
      omega
  | succ n ih =>
    intro ids path hlength hids
    induction ids with
    | nil => exact ⟨[], .nil⟩
    | cons id ids ihids =>
      obtain ⟨hid, htrail⟩ := hids id List.mem_cons_self
      obtain ⟨e, he⟩ := exists_element hid
      obtain ⟨visits, hvisits⟩ := ihids fun id hid => hids id (List.mem_cons_of_mem _ hid)
      have hchild : ∀ c ∈ e.children, d.IsChildOf c id := fun c hc =>
        (h.mem_children c id).1 (children_eq he ▸ hc)
      have hlength' : (id :: path).length + n = d.size := by
        simp only [List.length_cons]
        omega
      obtain ⟨below, hbelow⟩ := ih e.children (id :: path) hlength' fun c hc =>
        ⟨lt_of_parent? (hchild c hc), htrail.cons hacyclic (hchild c hc)⟩
      refine ⟨id :: (below ++ visits), ?_⟩
      rw [List.flatMap_cons, markupTo_succ n he]
      exact .element he hbelow hvisits

/-- In a forest the writing of an element ends, and with the markup that `outerHtml` gives. -/
theorem IsForest.writes (h : d.IsForest) (hid : id < d.size) :
    ∃ visits, d.Writes [id] visits (d.outerHtml id).toList := by
  obtain ⟨visits, hvisits⟩ := h.writes_within d.size [id] [] (by simp) fun c hc => by
    rw [List.mem_singleton.1 hc]
    exact ⟨hid, trail_nil _ id⟩
  exact ⟨visits, by simpa [outerHtml] using hvisits⟩

/-! ### What is visited -/

/-- An element is another one or below it. -/
def IsWithin (d : Document) (x id : NodeId) : Prop := ReflTransGen d.IsChildOf x id

theorem IsForest.isWithin_iff (h : d.IsForest) (x id : NodeId) :
    d.IsWithin x id ↔ x = id ∨ ∃ c ∈ d.children id, d.IsWithin x c := by
  rw [IsWithin, ReflTransGen.cases_tail_iff]
  refine or_congr eq_comm ⟨fun ⟨c, hc, hup⟩ => ⟨c, (h.mem_children c id).2 hup, hc⟩, ?_⟩
  rintro ⟨c, hc, hx⟩
  exact ⟨c, hx, (h.mem_children c id).1 hc⟩

/-- What is within an element is visited, and nothing else. -/
theorem IsForest.mem_visits (h : d.IsForest) (hw : d.Writes ids visits out)
    (hids : ∀ id ∈ ids, id < d.size) : x ∈ visits ↔ ∃ id ∈ ids, d.IsWithin x id := by
  induction hw with
  | nil => simp
  | @missing id _ _ _ hnone _ _ =>
    obtain ⟨e, he⟩ := exists_element (hids id List.mem_cons_self)
    simp [he] at hnone
  | @element id _ _ _ e _ _ he _ _ ihbelow ihrest =>
    have hbelow := ihbelow fun c hc => h.child_lt c id (children_eq he ▸ hc)
    have hrest := ihrest fun c hc => hids c (List.mem_cons_of_mem _ hc)
    rw [List.mem_cons, List.mem_append, hbelow, hrest, List.exists_mem_cons_iff,
      h.isWithin_iff x id, children_eq he, or_assoc]

/-- No element is within two children of one parent. -/
theorem IsForest.eq_of_isWithin (h : d.IsForest) {a b p : NodeId} (ha : d.IsChildOf a p)
    (hb : d.IsChildOf b p) (hxa : d.IsWithin x a) (hxb : d.IsWithin x b) : a = b := by
  have hunique : Relator.RightUnique d.IsChildOf := fun c p q hp hq =>
    Option.some.inj (hp.symm.trans hq)
  -- a way from one child up to the other would lead past their parent and back to it
  have hsibling : ∀ {a b}, d.IsChildOf a p → d.IsChildOf b p → d.IsWithin a b → a = b := by
    intro a b ha hb hab
    rcases hab.cases_head with rfl | ⟨q, hq, hup⟩
    · rfl
    · obtain rfl := hunique ha hq
      exact absurd (TransGen.tail' hup hb) (h.acyclic p)
  rcases ReflTransGen.total_of_right_unique hunique hxa hxb with hab | hba
  · exact hsibling ha hb hab
  · exact (hsibling hb ha hba).symm

/-- Nothing is visited twice by elements that have nothing within them in common. -/
theorem IsForest.nodup_visits (h : d.IsForest) (hw : d.Writes ids visits out)
    (hids : ∀ id ∈ ids, id < d.size)
    (hapart : ids.Pairwise fun a b => ∀ x, d.IsWithin x a → ¬ d.IsWithin x b) :
    visits.Nodup := by
  induction hw with
  | nil => exact List.nodup_nil
  | missing _ _ ih =>
    exact ih (fun c hc => hids c (List.mem_cons_of_mem _ hc)) (List.pairwise_cons.1 hapart).2
  | @element id _ _ _ e _ _ he hbelow hrest ihbelow ihrest =>
    have hchild : ∀ c ∈ e.children, d.IsChildOf c id := fun c hc =>
      (h.mem_children c id).1 (children_eq he ▸ hc)
    have hchildren : ∀ c ∈ e.children, c < d.size := fun c hc => lt_of_parent? (hchild c hc)
    have hothers := fun c hc => hids c (List.mem_cons_of_mem id hc)
    obtain ⟨hhead, htail⟩ := List.pairwise_cons.1 hapart
    -- what the elements within the first one and within the others have in common
    have hinner : ∀ x ∈ _, ∃ c ∈ e.children, d.IsWithin x c := fun x hx =>
      (h.mem_visits hbelow hchildren).1 hx
    have houter : ∀ x ∈ _, ∃ b ∈ _, d.IsWithin x b := fun x hx =>
      (h.mem_visits hrest hothers).1 hx
    refine List.nodup_cons.2 ⟨fun hmem => ?_, List.nodup_append.2 ⟨?_, ?_, ?_⟩⟩
    · rcases List.mem_append.1 hmem with hmem | hmem
      · obtain ⟨c, hc, hwithin⟩ := hinner id hmem
        exact h.acyclic id (TransGen.tail' hwithin (hchild c hc))
      · obtain ⟨b, hb, hwithin⟩ := houter id hmem
        exact hhead b hb id .refl hwithin
    · refine ihbelow hchildren ((children_eq he ▸ h.nodup_children id).imp_of_mem ?_)
      intro a b ha hb hne x hxa hxb
      exact hne (h.eq_of_isWithin (hchild a ha) (hchild b hb) hxa hxb)
    · exact ihrest hothers htail
    · rintro x hx y hy rfl
      obtain ⟨c, hc, hwithin⟩ := hinner x hx
      obtain ⟨b, hb, hwithin'⟩ := houter x hy
      exact hhead b hb x (hwithin.tail (hchild c hc)) hwithin'

end Document

end Page

end Highlighting
