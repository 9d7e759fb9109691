import Highlighting.Page.Document

/-!
# Disclosure widgets

A widget is a `DETAILS` element, which is open as long as it has the attribute `open`, and a
`SUMMARY` element right below it that people click on.
-/

namespace Highlighting

namespace Page

/-- The attribute of an open widget. -/
def openAttribute : String := "open"

namespace Document

/-- The widget that a click on an element is for: the parent of a summary, if it is a widget. -/
def disclosure? (d : Document) (target : NodeId) : Option NodeId :=
  if d.tagName? target = some "SUMMARY" then
    match d.parent? target with
    | some p => if d.tagName? p = some "DETAILS" then some p else none
    | none => none
  else none

/-- Whether a widget is open. -/
def isOpen (d : Document) (id : NodeId) : Bool := d.hasAttribute id openAttribute

/-- Opens a closed widget and closes an open one, and tells whether it is open now. -/
def toggle (d : Document) (id : NodeId) : Document × Except DocumentError Bool :=
  match d.removeAttribute id openAttribute with
  | (d, .error e) => (d, .error e)
  | (d, .ok true) => (d, .ok false)
  | (d, .ok false) =>
    match d.setAttribute id openAttribute openAttribute with
    | (d, .error e) => (d, .error e)
    | (d, .ok ()) => (d, .ok true)

end Document

end Page

end Highlighting
