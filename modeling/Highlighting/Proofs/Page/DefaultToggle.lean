import Highlighting.Proofs.Page.Histories
import Highlighting.Proofs.Page.Toggling

/-!
# The page toggles widgets as the listener does

A click on a summary toggles its widget in one of two ways.  The listener that toggles widgets does
it and prevents the page from acting; without listeners the page does it on its own and scrolls the
widget into view.  Either way the document is the same after any number of clicks
(`Dispatcher.dispatchAll_unattended`).  What is reported of a click differs in the number of
listeners that have seen it, and for a summary of a widget in who has acted (`TellsApart`).
-/

namespace Highlighting

namespace Page

/-- What is reported of a click on an element of a document with the listener that toggles widgets,
and what without listeners. -/
structure TellsApart (d : Document) (target : NodeId) (attended unattended : ClickOutcome) :
    Prop where
  listenersRun_attended : attended.listenersRun = 1
  listenersRun_unattended : unattended.listenersRun = 0
  /-- on a summary of a widget, the listener prevents what the page does on its own -/
  of_summary : ∀ id, d.IsSummaryOf target id → d.tagName? id = some "DETAILS" →
    attended.defaultPrevented = true ∧ attended.sideEffects = [] ∧
      unattended.defaultPrevented = false ∧ unattended.sideEffects = [.scrollIntoView id]
  /-- elsewhere the reports differ in the number of listeners alone -/
  of_elsewhere : (∀ id, d.IsSummaryOf target id → d.tagName? id ≠ some "DETAILS") →
    attended.defaultPrevented = unattended.defaultPrevented ∧
      attended.sideEffects = unattended.sideEffects

namespace Dispatcher

variable {d : Document} {target : NodeId} {targets : List NodeId}

/-- What is reported of a click that the listener has seen. -/
def attendedOutcome (d : Document) (target : NodeId) : ClickOutcome :=
  ⟨(d.disclosure? target).isSome, 1, []⟩

/-- What is reported of a click that no listener has seen. -/
def unattendedOutcome (d : Document) (target : NodeId) : ClickOutcome :=
  ⟨false, 0, (d.disclosure? target).toList.map .scrollIntoView⟩

theorem tellsApart_outcomes (d : Document) (target : NodeId) :
    TellsApart d target (attendedOutcome d target) (unattendedOutcome d target) := by
  refine ⟨rfl, rfl, fun id hid htag => ?_, fun helsewhere => ?_⟩
  · have hwidget : d.disclosure? target = some id := Document.disclosure?_eq_some_iff.2 ⟨hid, htag⟩
    simp [attendedOutcome, unattendedOutcome, hwidget]
  · have hnone : d.disclosure? target = none := by
      refine Option.eq_none_iff_forall_ne_some.2 fun id hid => ?_
      obtain ⟨hsummary, htag⟩ := Document.disclosure?_eq_some_iff.1 hid
      exact helsewhere id hsummary htag
    simp [attendedOutcome, unattendedOutcome, hnone]

/-- What one click does without listeners: the widget it is for is toggled by the page. -/
theorem dispatch_unattended (h : target < d.size) :
    (dispatch {} d target).value = (d.clicked target, .ok (unattendedOutcome d target)) := by
  have hcontains : d.contains target = true := Document.contains_iff.2 h
  rw [dispatch]
  cases hwidget : d.disclosure? target with
  | none => simp [hcontains, notify, hwidget, defaultAction, Document.clicked, unattendedOutcome]
  | some id =>
    have hid := Document.lt_of_tagName? (Document.disclosure?_eq_some_iff.1 hwidget).2
    simp [hcontains, notify, hwidget, defaultAction, Document.toggle_eq hid, Document.clicked,
      unattendedOutcome]

theorem dispatchAll_no_listeners (h : ∀ t ∈ targets, t < d.size) :
    dispatchAll {} d targets =
      (targets.foldl Document.clicked d, targets.map fun t => .ok (unattendedOutcome d t)) := by
  refine dispatchAll_eq dispatch_unattended (fun t hsame => ?_) h
  rw [unattendedOutcome, unattendedOutcome, hsame.disclosure?_eq]

/-- After any clicks on elements the document is the same, whether the listener that toggles widgets
sees them or no listener does.  No click fails, and what is reported of each one differs as
`TellsApart` says. -/
theorem dispatchAll_unattended (d : Document) (targets : List NodeId)
    (h : ∀ t ∈ targets, t < d.size) :
    (dispatchAll {} d targets).1 = (toggling.dispatchAll d targets).1 ∧
    (toggling.dispatchAll d targets).2.length = targets.length ∧
    (dispatchAll {} d targets).2.length = targets.length ∧
    ∀ (i : Nat) (t : NodeId), targets[i]? = some t → ∃ attended unattended : ClickOutcome,
      (toggling.dispatchAll d targets).2[i]? = some (.ok attended) ∧
      (dispatchAll {} d targets).2[i]? = some (.ok unattended) ∧
      TellsApart d t attended unattended := by
  rw [dispatchAll_toggling h, dispatchAll_no_listeners h]
  refine ⟨rfl, List.length_map _, List.length_map _, fun i t ht => ?_⟩
  refine ⟨attendedOutcome d t, unattendedOutcome d t, ?_, ?_, tellsApart_outcomes d t⟩
  · rw [List.getElem?_map, ht, Option.map_some, attendedOutcome]
  · rw [List.getElem?_map, ht, Option.map_some]

/-- A widget that is open with another value than the one it is given: it is closed and opened
again by clicks on its summary, and the click on the root in between is for no widget. -/
theorem dispatchAll_unattended_reopened : ∃ d : Document, d.ComesAbout ∧
    (∀ t ∈ [2, 0, 2], t < d.size) ∧
    d.outerHtml 0 = "<html><details open=\"yes\"><summary></summary></details></html>" ∧
    (dispatchAll {} d [2, 0, 2]).1.outerHtml 0 =
      "<html><details open=\"open\"><summary></summary></details></html>" ∧
    (dispatchAll {} d [2, 0, 2]).1 = (toggling.dispatchAll d [2, 0, 2]).1 := by
  have hcomes := ((Document.ComesAbout.empty.change (.appendElement 0 "details")).change
    (.appendElement 1 "summary")).change (.setAttribute 1 "open" "yes")
  have htargets : ∀ t ∈ [2, 0, 2], t < (((Document.empty.change (.appendElement 0 "details")).change
    (.appendElement 1 "summary")).change (.setAttribute 1 "open" "yes")).size := by
    decide +kernel
  exact ⟨_, hcomes, htargets, by decide +kernel, by decide +kernel,
    (dispatchAll_unattended _ [2, 0, 2] htargets).1⟩

/-- A click on the root, which is no summary: the document is the same, but it is reported that one
listener has seen the click, or none. -/
theorem dispatch_toggling_ne_unattended : ∃ (d : Document) (target : NodeId),
    d.ComesAbout ∧ target < d.size ∧ (∀ id, ¬ d.IsSummaryOf target id) ∧
    (toggling.dispatch d target).value.1 = (dispatch {} d target).value.1 ∧
    (toggling.dispatch d target).value.2 ≠ (dispatch {} d target).value.2 := by
  have hroot : 0 < Document.empty.size := by
    decide
  refine ⟨.empty, 0, .empty, hroot, fun id hid => ?_, ?_⟩
  · exact absurd hid.1 (by decide)
  · rw [dispatch_toggling hroot, dispatch_unattended hroot]
    exact ⟨rfl, by decide⟩

end Dispatcher

end Page

end Highlighting
