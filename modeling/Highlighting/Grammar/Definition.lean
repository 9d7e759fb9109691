import Highlighting.Grammar.Error
import Highlighting.Grammar.Rule
import Highlighting.Log.Logged

/-!
# Grammar definitions

A definition has a name and an ordered list of states, each with its entries in the order in which
they are tried.  Entries are appended, which declares a state at need, or prepended, which needs
the state to be there already.
-/

namespace Highlighting

/-- A grammar that is not compiled yet. -/
structure Definition where
  name : String
  states : List (String × List Entry) := []
deriving DecidableEq, Inhabited

namespace Definition

/-- A definition without states. -/
def named (name : String) : Definition := ⟨name, []⟩

/-- The same states under another name. -/
def rename (d : Definition) (name : String) : Definition := { d with name }

/-- The names of the states in declaration order. -/
def stateNames (d : Definition) : List String := d.states.map (·.1)

/-- Whether a state is declared. -/
def hasState (d : Definition) (state : String) : Bool := d.stateNames.contains state

/-- The entries of a state. -/
def entries? (d : Definition) (state : String) : Option (List Entry) :=
  (d.states.find? fun s => s.1 == state).map (·.2)

/-- Changes the entries of one state. -/
def modifyState (d : Definition) (state : String) (f : List Entry → List Entry) : Definition :=
  { d with states := d.states.map fun s => if s.1 == state then (s.1, f s.2) else s }

/-- Puts entries after those of a state, which is declared if it is not there. -/
def append (d : Definition) (state : String) (entries : List Entry) : Definition :=
  if d.hasState state then d.modifyState state (· ++ entries)
  else { d with states := d.states ++ [(state, entries)] }

/-- Puts entries in front of those of a state, in their own order. -/
def prepend? (d : Definition) (state : String) (entries : List Entry) :
    Except GrammarError Definition :=
  if d.hasState state then .ok (d.modifyState state (entries ++ ·))
  else .error (.unknownState state d.name)

/-- Prepends entries and reports it. -/
def prepend (d : Definition) (state : String) (entries : List Entry) :
    Logged (Except GrammarError Definition) :=
  ⟨d.prepend? state entries,
   [.debug "Prepending rules"
     [("grammar", d.name), ("state", state), ("rules", toString entries.length)]]⟩

end Definition

end Highlighting
