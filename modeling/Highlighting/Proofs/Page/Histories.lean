import Highlighting.Page.Dispatch
import Highlighting.Proofs.Page.Walks

/-!
# Documents that come about

A document comes about from the empty one by changes and by clicks, which reach listeners that
change it in turn (`Document.ComesAbout`).  What no call takes away, every such document has
(`Document.IsKept.of_comesAbout`).  Each change keeps the elements a forest; the one that could
close a circle is refused by a search upwards, which ends because there is none yet
(`IsForest.appendChild`).
-/

namespace Highlighting

namespace Page

open Relation

/-! ### One link that leads elsewhere -/

section Relink

variable {rel rel' : NodeId → NodeId → Prop} {a b c p x : NodeId}

/-- Up to the element whose link is another one, the links of a way are the old ones. -/
theorem reflTransGen_of_relink (h : ∀ a b, rel' a b → rel a b ∨ a = c ∧ b = p)
    (hx : ReflTransGen rel' x c) : ReflTransGen rel x c := by
  induction hx using ReflTransGen.head_induction_on with
  | refl => exact .refl
  | head hab _ ih =>
    rcases h _ _ hab with hab | ⟨rfl, -⟩
    · exact .head hab ih
    · exact .refl

/-- A way keeps to the old links, or it comes by the new one. -/
theorem transGen_of_relink (h : ∀ a b, rel' a b → rel a b ∨ a = c ∧ b = p)
    (hab : TransGen rel' a b) :
    TransGen rel a b ∨ ReflTransGen rel' a c ∧ ReflTransGen rel' p b := by
  induction hab with
  | single hab =>
    rcases h _ _ hab with hab | ⟨rfl, rfl⟩
    · exact .inl (.single hab)
    · exact .inr ⟨.refl, .refl⟩
  | tail hway hlast ih =>
    rcases ih with hway' | ⟨hac, hpb⟩
    · rcases h _ _ hlast with hlast | ⟨rfl, rfl⟩
      · exact .inl (hway'.tail hlast)
      · exact .inr ⟨hway.to_reflTransGen, .refl⟩
    · exact .inr ⟨hac, hpb.tail hlast⟩

/-- A new link closes no circle when no way leads back from its end. -/
theorem acyclic_of_relink (h : ∀ a b, rel' a b → rel a b ∨ a = c ∧ b = p)
    (hacyclic : ∀ x, ¬ TransGen rel x x) (hback : ¬ ReflTransGen rel p c) (x : NodeId) :
    ¬ TransGen rel' x x := by
  intro hx
  rcases transGen_of_relink h hx with hx | ⟨hxc, hpx⟩
  · exact hacyclic x hx
  · exact hback (reflTransGen_of_relink h (hpx.trans hxc))

end Relink

namespace Document

variable {d d' : Document} {p c : NodeId}

/-! ### Moving an element -/

theorem size_detach (d : Document) (c : NodeId) : (d.detach c).size = d.size := by
  unfold detach
  split <;> simp

theorem parent?_detach (d : Document) (c x : NodeId) : (d.detach c).parent? x = d.parent? x := by
  unfold detach
  split
  · exact parent?_update_children d _ (·.filter (· != c)) x
  · rfl

/-- An element that leaves its parent is in no list of children any more. -/
theorem IsForest.children_detach (h : d.IsForest) (c x : NodeId) :
    (d.detach c).children x = (d.children x).filter (· != c) := by
  have hother : d.parent? c ≠ some x → (d.children x).filter (· != c) = d.children x := by
    intro hne
    refine List.filter_eq_self.2 fun y hy => bne_iff_ne.2 ?_
    rintro rfl
    exact hne ((h.mem_children y x).1 hy)
  unfold detach
  split
  · next p hp =>
    rw [children_update_children (h.parent_lt c p hp)]
    by_cases hx : x = p
    · simp [hx]
    · rw [if_neg hx, hother]
      simpa [hp] using Ne.symm hx
  · next hp => exact (hother (by simp [hp])).symm

/-- An element is moved to the end of the children of another, or the document stays as it is. -/
theorem IsForest.appendChild_cases (h : d.IsForest) (p c : NodeId) :
    (d.appendChild p c).1 = d ∨
      p < d.size ∧ c < d.size ∧ ¬ d.IsWithin p c ∧ (d.appendChild p c).1.size = d.size ∧
        (∀ x, (d.appendChild p c).1.parent? x = if x = c then some p else d.parent? x) ∧
        ∀ x, (d.appendChild p c).1.children x =
          (d.children x).filter (· != c) ++ if x = p then [c] else [] := by
  by_cases hp : d.contains p = true
  · by_cases hc : d.contains c = true
    · by_cases habove : d.isAbove c d.size p = true
      · simp [appendChild, hp, hc, habove]
      · have hp' := contains_iff.1 hp
        have hc' := contains_iff.1 hc
        have hclimbs : d.Climbs c p (d.isAbove c d.size p) := (h.climbs hp').2 rfl
        refine .inr ⟨hp', hc', fun hwithin => habove (hclimbs.iff_reflTransGen.2 hwithin), ?_⟩
        have hresult : (d.appendChild p c).1 =
            ((d.detach c).update c fun e => { e with parent := some p }).update p
              fun e => { e with children := e.children ++ [c] } := by
          simp [appendChild, hp, hc, habove]
        rw [hresult]
        refine ⟨by simp [size_detach], fun x => ?_, fun x => ?_⟩
        · rw [parent?_update_children _ p (· ++ [c]),
            parent?_update_parent (by rwa [size_detach]), parent?_detach]
        · rw [children_update_children (by rwa [size_update, size_detach]) (· ++ [c]),
            children_update_parent, children_update_parent, h.children_detach, h.children_detach]
          by_cases hx : x = p
          · simp [hx]
          · simp [hx]
    · simp [appendChild, hp, hc]
  · simp [appendChild, hp]

/-- The links of a forest with one element moved to where it is not below itself. -/
theorem IsForest.of_move (h : d.IsForest) (hp : p < d.size) (hc : c < d.size)
    (hwithin : ¬ d.IsWithin p c) (hsize : d'.size = d.size)
    (hparent : ∀ x, d'.parent? x = if x = c then some p else d.parent? x)
    (hchildren : ∀ x, d'.children x =
      (d.children x).filter (· != c) ++ if x = p then [c] else []) : d'.IsForest := by
  have hlink : ∀ a b, d'.IsChildOf a b → d.IsChildOf a b ∨ a = c ∧ b = p := by
    intro a b hab
    rw [IsChildOf, hparent] at hab
    by_cases ha : a = c
    · rw [if_pos ha] at hab
      exact .inr ⟨ha, (Option.some.inj hab).symm⟩
    · rw [if_neg ha] at hab
      exact .inl hab
  refine ⟨fun x q hx => ?_, fun x q hx => ?_, fun x q => ?_, fun q => ?_, ?_⟩
  · rw [hparent] at hx
    rw [hsize]
    split at hx
    · exact Option.some.inj hx ▸ hp
    · exact h.parent_lt x q hx
  · rw [hchildren, List.mem_append] at hx
    rw [hsize]
    rcases hx with hx | hx
    · exact h.child_lt x q (List.mem_of_mem_filter hx)
    · split at hx
      · exact List.mem_singleton.1 hx ▸ hc
      · cases hx
  · rw [hparent, hchildren, List.mem_append, List.mem_filter, h.mem_children]
    by_cases hx : x = c
    · by_cases hq : q = p
      · simp [hx, hq]
      · simp [hx, hq, Ne.symm hq]
    · by_cases hq : q = p <;> simp [hx, hq]
  · rw [hchildren]
    refine List.nodup_append.2 ⟨(h.nodup_children q).filter _, ?_, fun a ha b hb => ?_⟩
    · split <;> simp
    · split at hb
      · rw [List.mem_singleton.1 hb]
        exact bne_iff_ne.1 (List.mem_filter.1 ha).2
      · cases hb
  · exact acyclic_of_relink hlink h.acyclic hwithin

theorem IsForest.appendChild (h : d.IsForest) (p c : NodeId) :
    (d.appendChild p c).1.IsForest := by
  rcases h.appendChild_cases p c with heq | ⟨hp, hc, hwithin, hsize, hparent, hchildren⟩
  · rwa [heq]
  · exact h.of_move hp hc hwithin hsize hparent hchildren

end Document

/-! ### Changes and clicks -/

/-- A call that may change a document. -/
inductive Change where
  | createElement (tag : String)
  | appendChild (parent child : NodeId)
  | appendElement (parent : NodeId) (tag : String)
  | setAttribute (id : NodeId) (name value : String)
  | removeAttribute (id : NodeId) (name : String)
deriving DecidableEq, Inhabited

namespace Document

/-- A document after a call, whether the call succeeds or not. -/
def change (d : Document) : Change → Document
  | .createElement tag => (d.createElement tag).1
  | .appendChild parent child => (d.appendChild parent child).1
  | .appendElement parent tag => (d.appendElement parent tag).1
  | .setAttribute id name value => (d.setAttribute id name value).1
  | .removeAttribute id name => (d.removeAttribute id name).1

end Document

/-- A listener works on documents by calls that change them, and in no other way. -/
def Listener.WorksByChanges (l : Listener) : Prop :=
  ∀ d c, ∃ changes : List Change, (l.handle d c).value.1 = changes.foldl Document.change d

namespace Document

variable {d : Document}

/-- A document comes about from the empty one by changes and clicks. -/
inductive ComesAbout : Document → Prop
  | empty : ComesAbout .empty
  | change {d : Document} (c : Change) (h : ComesAbout d) : ComesAbout (d.change c)
  | click {d : Document} (x : Dispatcher) (target : NodeId)
      (hx : ∀ l ∈ x.listeners, l.WorksByChanges) (h : ComesAbout d) :
      ComesAbout (x.dispatch d target).value.1

/-- A property of documents that no call takes away. -/
structure IsKept (P : Document → Prop) : Prop where
  createElement : ∀ d tag, P d → P (d.createElement tag).1
  appendChild : ∀ d parent child, P d → P (d.appendChild parent child).1
  setAttribute : ∀ d id name value, P d → P (d.setAttribute id name value).1
  removeAttribute : ∀ d id name, P d → P (d.removeAttribute id name).1

section IsKept

variable {P : Document → Prop} (hP : IsKept P)

include hP

theorem IsKept.appendElement (h : P d) (parent : NodeId) (tag : String) :
    P (d.appendElement parent tag).1 := by
  have hcreated := hP.createElement d tag h
  unfold Document.appendElement
  split
  · next heq => rwa [heq] at hcreated
  · next child heq =>
    rw [heq] at hcreated
    have happended := hP.appendChild _ parent child hcreated
    split
    · next heq => rwa [heq] at happended
    · next heq => rwa [heq] at happended

theorem IsKept.change (h : P d) (c : Change) : P (d.change c) := by
  cases c with
  | createElement tag => exact hP.createElement d tag h
  | appendChild parent child => exact hP.appendChild d parent child h
  | appendElement parent tag => exact hP.appendElement h parent tag
  | setAttribute id name value => exact hP.setAttribute d id name value h
  | removeAttribute id name => exact hP.removeAttribute d id name h

theorem IsKept.changes (h : P d) (changes : List Change) :
    P (changes.foldl Document.change d) := by
  induction changes generalizing d with
  | nil => exact h
  | cons c changes ih => exact ih (hP.change h c)

end IsKept

/-- A widget is toggled by changes of its attributes. -/
theorem toggle_eq_changes (d : Document) (id : NodeId) :
    ∃ changes : List Change, (d.toggle id).1 = changes.foldl Document.change d := by
  unfold toggle
  split
  · next d' _ heq => exact ⟨[.removeAttribute id openAttribute], by simp [change, heq]⟩
  · next d' heq => exact ⟨[.removeAttribute id openAttribute], by simp [change, heq]⟩
  · next d' heq =>
    refine ⟨[.removeAttribute id openAttribute, .setAttribute id openAttribute openAttribute], ?_⟩
    split
    · next heq' => simp [change, heq, heq']
    · next heq' => simp [change, heq, heq']

theorem defaultAction_eq_changes (d : Document) (target : NodeId) :
    ∃ changes : List Change,
      (defaultAction d target).value.1 = changes.foldl Document.change d := by
  unfold defaultAction
  split
  · exact ⟨[], rfl⟩
  · next widget _ =>
    obtain ⟨changes, hchanges⟩ := d.toggle_eq_changes widget
    refine ⟨changes, ?_⟩
    split
    · next heq => simpa [heq] using hchanges
    · next heq => simpa [heq] using hchanges

section IsKept

variable {P : Document → Prop} (hP : IsKept P)

include hP

theorem IsKept.notify (h : P d) {ls : List Listener} (hls : ∀ l ∈ ls, l.WorksByChanges)
    (c : Click) : P (Dispatcher.notify ls d c).value.1 := by
  induction ls generalizing d c with
  | nil => exact h
  | cons l ls ih =>
    obtain ⟨changes, hchanges⟩ := hls l List.mem_cons_self d c
    exact ih (hchanges ▸ hP.changes h changes) (fun l hl => hls l (List.mem_cons_of_mem _ hl)) _

theorem IsKept.dispatch (h : P d) {x : Dispatcher} (hx : ∀ l ∈ x.listeners, l.WorksByChanges)
    (target : NodeId) : P (x.dispatch d target).value.1 := by
  have hnotified := hP.notify h hx ⟨target, false⟩
  unfold Dispatcher.dispatch
  split
  · exact h
  · obtain ⟨changes, hchanges⟩ := defaultAction_eq_changes
      (Dispatcher.notify x.listeners d ⟨target, false⟩).value.1 target
    have hacted := hchanges ▸ hP.changes hnotified changes
    rw [Logged.value_bind]
    dsimp only
    split
    · exact hnotified
    · rw [Logged.value_bind]
      split
      · next heq => rwa [heq] at hacted
      · next heq => rwa [heq] at hacted

/-- What no call takes away, and the empty document has, every document has that comes about. -/
theorem IsKept.of_comesAbout (hempty : P .empty) (h : d.ComesAbout) : P d := by
  induction h with
  | empty => exact hempty
  | change c _ ih => exact hP.change ih c
  | click x target hx _ ih => exact hP.dispatch ih hx target

end IsKept

theorem isKept_isForest : IsKept IsForest where
  createElement _ tag h := h.createElement tag
  appendChild _ parent child h := h.appendChild parent child
  setAttribute _ id name value h := h.setAttribute id name value
  removeAttribute _ id name h := h.removeAttribute id name

theorem ComesAbout.isForest (h : d.ComesAbout) : d.IsForest :=
  isKept_isForest.of_comesAbout isForest_empty h

/-- The elements of a document are a forest, whatever changes and clicks it comes about by.  In it
the search upwards that comes before an element is moved ends, and so does the writing of an
element, which visits the element and all below it once. -/
theorem ComesAbout.forest_walks (h : d.ComesAbout) :
    d.IsForest ∧
    (∀ id < d.size, ∀ above b, d.Climbs above id b ↔ b = d.isAbove above d.size id) ∧
    ∀ id < d.size, ∃ visits,
      (∀ visits' out, d.Writes [id] visits' out ↔
        visits' = visits ∧ out = (d.outerHtml id).toList) ∧
      visits.Nodup ∧ ∀ x, x ∈ visits ↔ d.IsWithin x id := by
  have hforest := h.isForest
  refine ⟨hforest, fun id hid above b => hforest.climbs hid, fun id hid => ?_⟩
  obtain ⟨visits, hvisits⟩ := hforest.writes hid
  have hids : ∀ c ∈ [id], c < d.size := fun c hc => List.mem_singleton.1 hc ▸ hid
  refine ⟨visits, fun visits' out => ⟨fun hw => hw.unique hvisits, ?_⟩, ?_, fun x => ?_⟩
  · rintro ⟨rfl, rfl⟩
    exact hvisits
  · exact hforest.nodup_visits hvisits hids (List.pairwise_singleton _ id)
  · rw [hforest.mem_visits hvisits hids]
    simp

end Document

/-- The listener that toggles widgets works on documents by changes. -/
theorem worksByChanges_disclosureToggle : disclosureToggle.WorksByChanges := by
  intro d c
  unfold disclosureToggle
  dsimp only
  split
  · exact ⟨[], rfl⟩
  · next widget _ =>
    obtain ⟨changes, hchanges⟩ := d.toggle_eq_changes widget
    refine ⟨changes, ?_⟩
    split
    · next heq => simpa [heq] using hchanges
    · next heq => simpa [heq] using hchanges

/-- A widget that is moved, refuses to take in what it is in, and is opened by a click. -/
theorem forest_walks_widget : ∃ d : Document, d.ComesAbout ∧
    d.outerHtml 0 = "<html><div><details open=\"open\"><summary></summary></details></div></html>" ∧
    d.IsForest ∧
    (∀ id < d.size, ∀ above b, d.Climbs above id b ↔ b = d.isAbove above d.size id) ∧
    ∀ id < d.size, ∃ visits,
      (∀ visits' out, d.Writes [id] visits' out ↔
        visits' = visits ∧ out = (d.outerHtml id).toList) ∧
      visits.Nodup ∧ ∀ x, x ∈ visits ↔ d.IsWithin x id := by
  have hcomes := (((((Document.ComesAbout.empty.change (.appendElement 0 "details")).change
    (.appendElement 1 "summary")).change (.appendElement 0 "div")).change
    (.appendChild 3 1)).change (.appendChild 2 3)).click ⟨[disclosureToggle]⟩ 2
    (by simpa using worksByChanges_disclosureToggle)
  exact ⟨_, hcomes, by decide +kernel, hcomes.forest_walks⟩

end Page

end Highlighting
