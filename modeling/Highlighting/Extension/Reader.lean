import Highlighting.Extension.Basic
import Highlighting.Extension.Toml
import Highlighting.Language.CFamily

/-!
# Reading extensions

`Extension.parse` reads an extension from its file format: the name of the base lexer, which is
C++ unless it is given, a tag, and rules with their contexts, category and words.  Fields that an
extension does not know are refused.
-/

namespace Highlighting

namespace Extension

/-- A rule before its category is looked up. -/
structure WrittenRule where
  contexts : List String
  category : String
  words : List String
deriving DecidableEq, Inhabited

/-- A text. -/
def text? : Toml → Option String
  | .string s => some s
  | _ => none

/-- A list of texts. -/
def texts? : Toml → Option (List String)
  | .list items => items.mapM text?
  | _ => none

/-- The value of a field. -/
def field? (fields : List (String × Toml)) (name : String) : Option Toml :=
  (fields.find? fun f => f.1 == name).map (·.2)

/-- Whether every field has one of the known names. -/
def knowsAll (names : List String) (fields : List (String × Toml)) : Bool :=
  fields.all fun f => names.contains f.1

/-- A rule from its fields. -/
def rule? (fields : List (String × Toml)) : Option WrittenRule := do
  if knowsAll ["contexts", "category", "words"] fields then
    let contexts ← match field? fields "contexts" with
      | some v => texts? v
      | none => some defaultContexts
    let category ← (field? fields "category").bind text?
    let words ← (field? fields "words").bind texts?
    some ⟨contexts, category, words⟩
  else none

/-- A rule from a value, which is a table or a list that begins with the three fields in order;
what follows them is not looked at. -/
def ruleOfValue? : Toml → Option WrittenRule
  | .table fields _ => rule? fields
  | .list (contexts :: category :: words :: _) => do
    some ⟨← texts? contexts, ← text? category, ← texts? words⟩
  | _ => none

/-- The rules of a file: an inline list or tables with headers. -/
def rules? (f : TomlFile) : Option (List WrittenRule) :=
  match field? f.fields "rules" with
  | some (.list items) => items.mapM ruleOfValue?
  | some _ => none
  | none => f.tables.mapM fun t => if t.1 == "rules" then rule? t.2 else none

/-- An optional text with a default. -/
def textOr? (fields : List (String × Toml)) (name : String) (default : α) (f : String → α) :
    Option α :=
  match field? fields name with
  | some v => (text? v).map f
  | none => some default

/-- The tag, the base and the rules of a written extension. -/
def written? (text : String) : Option (Option String × String × List WrittenRule) := do
  let f ← Toml.read? text
  if knowsAll ["tag", "base", "rules"] f.fields && (f.tables.all fun t => t.1 == "rules") then
    let tag ← textOr? f.fields "tag" none some
    let base ← textOr? f.fields "base" CFamily.cppTag id
    some (tag, base, ← rules? f)
  else none

/-- The rules with their categories, or the first name that is no category. -/
def categorize : List WrittenRule → Except String (List ExtensionRule)
  | [] => .ok []
  | r :: rs =>
    match Category.ofName? r.category with
    | none => .error r.category
    | some category => (categorize rs).map (⟨r.contexts, ⟨category, r.words⟩⟩ :: ·)

/-- Reads an extension. -/
def parse (text : String) : Logged (Except ExtensionError Extension) :=
  match written? text with
  | none =>
    ⟨.error .malformed,
     [.error .parseFailure "Failed to parse extension definition"]⟩
  | some (tag, base, rules) =>
    match categorize rules with
    | .ok rules => ⟨.ok ⟨tag, base, rules⟩, []⟩
    | .error name =>
      ⟨.error (.unknownCategory name),
       [.error .unknownCategory "Extension names an unknown token category"
        [("category", name)]]⟩

end Extension

end Highlighting
