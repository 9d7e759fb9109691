import Highlighting.Text.CaseMap

/-!
# Documents

A document is a list of elements; an element is known by its number in it, and element 0 is the
root.  Elements are never removed.  Appending an element moves it to the end of its new parent's
children, and is refused where an element would come to stand below itself.

Tags and attribute names do not depend on letter case: tags are kept in capitals and attribute
names in small letters.
-/

namespace Highlighting

namespace Page

/-- The number of an element in its document. -/
abbrev NodeId := Nat

/-- A number as it is shown. -/
def showId (id : NodeId) : String := s!"#{id}"

/-- An element.  Its attributes are in the order of their names. -/
structure Element where
  tagName : String
  attributes : List (String × String) := []
  parent : Option NodeId := none
  children : List NodeId := []
deriving DecidableEq, Inhabited

/-- Why a document is not changed as asked. -/
inductive DocumentError where
  | unknownNode (id : NodeId)
  | invalidTagName (name : String)
  | invalidAttributeName (name : String)
  | wouldCycle (parent child : NodeId)
deriving DecidableEq, Inhabited

namespace DocumentError

/-- The error in words. -/
def message : DocumentError → String
  | unknownNode id => s!"Node {showId id} does not belong to this document"
  | invalidTagName name => s!"Invalid tag name '{name}'"
  | invalidAttributeName name => s!"Invalid attribute name '{name}'"
  | wouldCycle parent child =>
    s!"Cannot append {showId child} under {showId parent}: it would create a cycle"

end DocumentError

/-- The elements of a page. -/
structure Document where
  nodes : List Element
deriving DecidableEq

/-- Whether a text is a name: a letter, and then letters, digits, dashes and underscores. -/
def isName (s : String) : Bool :=
  match s.toList with
  | [] => false
  | c :: cs => c.isAlpha && cs.all fun c => c.isAlphanum || c == '-' || c == '_'

/-- Gives a name a value in a list that is in the order of names. -/
def setAttributeIn (name value : String) : List (String × String) → List (String × String)
  | [] => [(name, value)]
  | a :: as =>
    if name < a.1 then (name, value) :: a :: as
    else if name = a.1 then (name, value) :: as
    else a :: setAttributeIn name value as

namespace Document

/-- The document with nothing but its root. -/
def empty : Document := ⟨[{ tagName := "HTML" }]⟩

instance : Inhabited Document := ⟨empty⟩

/-- The number of elements. -/
def size (d : Document) : Nat := d.nodes.length

/-- Whether the document has an element with a number. -/
def contains (d : Document) (id : NodeId) : Bool := id < d.size

/-- The tag of an element. -/
def tagName? (d : Document) (id : NodeId) : Option String := d.nodes[id]?.map Element.tagName

/-- The parent of an element. -/
def parent? (d : Document) (id : NodeId) : Option NodeId := d.nodes[id]?.bind Element.parent

/-- The children of an element. -/
def children (d : Document) (id : NodeId) : List NodeId :=
  (d.nodes[id]?.map Element.children).getD []

/-- The value of an attribute. -/
def attribute? (d : Document) (id : NodeId) (name : String) : Option String :=
  d.nodes[id]?.bind fun e =>
    (e.attributes.find? fun a => a.1 == asciiLowercase name).map (·.2)

/-- Whether an element has an attribute. -/
def hasAttribute (d : Document) (id : NodeId) (name : String) : Bool :=
  (d.attribute? id name).isSome

/-- Changes one element. -/
def update (d : Document) (id : NodeId) (f : Element → Element) : Document :=
  ⟨d.nodes.modify id f⟩

/-- Adds an element that has no parent. -/
def createElement (d : Document) (tag : String) : Document × Except DocumentError NodeId :=
  if isName tag then (⟨d.nodes ++ [{ tagName := asciiUppercase tag }]⟩, .ok d.size)
  else (d, .error (.invalidTagName tag))

/-- Whether a node is another one or above it, looking so many steps up. -/
def isAbove (d : Document) (above : NodeId) : Nat → NodeId → Bool
  | 0, id => id == above
  | n + 1, id =>
    id == above ||
      match d.parent? id with
      | some p => d.isAbove above n p
      | none => false

/-- The document after an element has left its parent. -/
def detach (d : Document) (child : NodeId) : Document :=
  match d.parent? child with
  | some p => d.update p fun e => { e with children := e.children.filter (· != child) }
  | none => d

/-- Moves an element to the end of the children of another. -/
def appendChild (d : Document) (parent child : NodeId) : Document × Except DocumentError Unit :=
  if !d.contains parent then (d, .error (.unknownNode parent))
  else if !d.contains child then (d, .error (.unknownNode child))
  else if d.isAbove child d.size parent then (d, .error (.wouldCycle parent child))
  else
    let d := (d.detach child).update child fun e => { e with parent := some parent }
    (d.update parent fun e => { e with children := e.children ++ [child] }, .ok ())

/-- Adds an element and then appends it to another.  The element stays when it cannot be
appended. -/
def appendElement (d : Document) (parent : NodeId) (tag : String) :
    Document × Except DocumentError NodeId :=
  match d.createElement tag with
  | (d, .error e) => (d, .error e)
  | (d, .ok child) =>
    match d.appendChild parent child with
    | (d, .error e) => (d, .error e)
    | (d, .ok ()) => (d, .ok child)

/-- Gives an attribute a value. -/
def setAttribute (d : Document) (id : NodeId) (name value : String) :
    Document × Except DocumentError Unit :=
  if !d.contains id then (d, .error (.unknownNode id))
  else if !isName name then (d, .error (.invalidAttributeName name))
  else
    (d.update id fun e =>
      { e with attributes := setAttributeIn (asciiLowercase name) value e.attributes }, .ok ())

/-- Removes an attribute, and tells whether it was there. -/
def removeAttribute (d : Document) (id : NodeId) (name : String) :
    Document × Except DocumentError Bool :=
  if !d.contains id then (d, .error (.unknownNode id))
  else
    (d.update id fun e =>
      { e with attributes := e.attributes.filter fun a => a.1 != asciiLowercase name },
     .ok (d.hasAttribute id name))

/-! ### Markup -/

/-- An attribute value between its quotes. -/
def attributeText (value : String) : List Char :=
  value.toList.flatMap fun c => if c = '"' then ['&', 'q', 'u', 'o', 't', ';'] else [c]

/-- The attributes of an element, each after a blank.  An empty value is not written. -/
def attributesMarkup (as : List (String × String)) : List Char :=
  as.flatMap fun (name, value) =>
    ' ' :: name.toList ++
      if value = "" then [] else ['=', '"'] ++ attributeText value ++ ['"']

/-- The markup of an element and of so many levels below it. -/
def markupTo (d : Document) : Nat → NodeId → List Char
  | 0, _ => []
  | n + 1, id =>
    match d.nodes[id]? with
    | none => []
    | some e =>
      let tag := (asciiLowercase e.tagName).toList
      '<' :: tag ++ attributesMarkup e.attributes ++ ['>'] ++
        e.children.flatMap (d.markupTo n) ++ ['<', '/'] ++ tag ++ ['>']

/-- The markup of an element with all that is below it. -/
def outerHtml (d : Document) (id : NodeId) : String := String.ofList (d.markupTo d.size id)

end Document

end Page

end Highlighting
