import Highlighting.Log.Logged
import Highlighting.Page.Disclosure

/-!
# Dispatching clicks

Listeners belong to the whole page and see every click, whatever its target, in the order in which
they were added.  Then the page does what it does on its own, unless a listener has prevented it:
a click on a summary toggles its widget and scrolls it into view.

`disclosureToggle` is the listener that toggles widgets itself, so that nothing scrolls.
-/

namespace Highlighting

namespace Page

/-- A click on an element. -/
structure Click where
  target : NodeId
  /-- whether a listener has prevented what the page does on its own -/
  defaultPrevented : Bool := false
deriving DecidableEq, Inhabited

/-- Something that sees clicks.  It may change the page, and tells whether it prevents what the
page does on its own. -/
structure Listener where
  name : String := "anonymous"
  handle : Document → Click → Logged (Document × Bool)

/-- The listeners of a page in the order of their addition. -/
structure Dispatcher where
  listeners : List Listener := []

/-- What a page does besides changing its elements. -/
inductive SideEffect where
  | scrollIntoView (id : NodeId)
deriving DecidableEq, Inhabited

/-- What has become of a click. -/
structure ClickOutcome where
  defaultPrevented : Bool := false
  listenersRun : Nat := 0
  sideEffects : List SideEffect := []
deriving DecidableEq, Inhabited

/-- A truth value in words. -/
def boolText (b : Bool) : String := if b then "true" else "false"

/-- What the page does on its own for a click on an element. -/
def defaultAction (d : Document) (target : NodeId) :
    Logged (Document × Except DocumentError (List SideEffect)) :=
  match d.disclosure? target with
  | none => pure (d, .ok [])
  | some widget =>
    match d.toggle widget with
    | (d, .error e) => pure (d, .error e)
    | (d, .ok isOpen) =>
      ⟨(d, .ok [.scrollIntoView widget]),
       [.debug "Default disclosure toggle" [("node", showId widget), ("open", boolText isOpen)]]⟩

namespace Dispatcher

/-- Adds a listener for clicks. -/
def add (x : Dispatcher) (l : Listener) : Logged Dispatcher :=
  ⟨⟨x.listeners ++ [l]⟩,
   [.debug "Listener registered" [("kind", "click"), ("listener", l.name)]]⟩

/-- Lets listeners see a click, one after the other. -/
def notify : List Listener → Document → Click → Logged (Document × Click)
  | [], d, c => pure (d, c)
  | l :: ls, d, c => do
    let (d, prevents) ← l.handle d c
    notify ls d { c with defaultPrevented := c.defaultPrevented || prevents }

/-- Dispatches a click on an element. -/
def dispatch (x : Dispatcher) (d : Document) (target : NodeId) :
    Logged (Document × Except DocumentError ClickOutcome) := do
  if !d.contains target then pure (d, .error (.unknownNode target))
  else
    let (d, c) ← notify x.listeners d ⟨target, false⟩
    let outcome : ClickOutcome := ⟨c.defaultPrevented, x.listeners.length, []⟩
    if c.defaultPrevented then pure (d, .ok outcome)
    else
      match ← defaultAction d target with
      | (d, .error e) => pure (d, .error e)
      | (d, .ok effects) => pure (d, .ok { outcome with sideEffects := effects })

end Dispatcher

/-- The listener that toggles widgets and prevents the page from doing it. -/
def disclosureToggle : Listener where
  name := "disclosure-toggle"
  handle d c :=
    match d.disclosure? c.target with
    | none =>
      ⟨(d, false),
       [.debug "Click outside a disclosure summary" [("target", showId c.target)]]⟩
    | some widget =>
      match d.toggle widget with
      | (d, .ok isOpen) =>
        ⟨(d, true), [.success .disclosureToggled "Disclosure toggled"
          [("node", showId widget), ("open", boolText isOpen)]]⟩
      | (d, .error e) => ⟨(d, true), [.error .internalError e.message]⟩

end Page

end Highlighting
