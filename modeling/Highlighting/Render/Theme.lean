import Highlighting.Token.Structured

/-!
# Themes

A theme gives styles to categories.  A category without a style of its own has the style of the
nearest category above it that has one.  `Theme.css` is the style sheet of a theme, with one rule
for each category that has a class and something to declare.
-/

namespace Highlighting

/-- How text looks. -/
structure Style where
  color : Option String := none
  background : Option String := none
  bold : Bool := false
  italic : Bool := false
deriving DecidableEq, Inhabited

namespace Style

/-- The declarations of a style sheet. -/
def declarations (s : Style) : List String :=
  (s.color.map ("color: " ++ ·)).toList ++
  (s.background.map ("background-color: " ++ ·)).toList ++
  (if s.bold then ["font-weight: bold"] else []) ++
  (if s.italic then ["font-style: italic"] else [])

/-- The structured form. -/
def toJson (s : Style) : Json :=
  let text := fun o : Option String => (o.map Json.string).getD .null
  .object [("color", text s.color), ("background", text s.background), ("bold", .bool s.bold),
    ("italic", .bool s.italic)]

/-- A text that may be missing. -/
def optionalText? : Option Json → Option (Option String)
  | none => some none
  | some .null => some none
  | some (.string s) => some (some s)
  | some _ => none

/-- A truth value that is false when it is missing. -/
def optionalBool? : Option Json → Option Bool
  | none => some false
  | some v => v.bool?

/-- Reads a style: a record whose fields may be missing, or a list of its fields in order, of
which the two colors have to be there. -/
def ofJson? : Json → Option Style
  | .object fields => do
    some ⟨← optionalText? (Json.field? fields "color"),
      ← optionalText? (Json.field? fields "background"),
      ← optionalBool? (Json.field? fields "bold"),
      ← optionalBool? (Json.field? fields "italic")⟩
  | .array (color :: background :: rest) => do
    if rest.length ≤ 2 then
      some ⟨← optionalText? (some color), ← optionalText? (some background),
        ← optionalBool? rest[0]?, ← optionalBool? rest[1]?⟩
    else none
  | _ => none

end Style

/-- Styles of categories. -/
structure Theme where
  name : String
  styles : List (Category × Style) := []
deriving DecidableEq, Inhabited

namespace Theme

/-- The style that a category has of its own. -/
def own? (t : Theme) (c : Category) : Option Style :=
  (t.styles.find? fun e => e.1 == c).map (·.2)

/-- The theme with one style replaced or added. -/
def withStyle (t : Theme) (c : Category) (s : Style) : Theme :=
  { t with styles := (c, s) :: t.styles.filter fun e => e.1 != c }

/-- The style that a category has of its own or from the nearest category above it. -/
def styleFor? (t : Theme) (c : Category) : Option Style := c.lineage.findSome? t.own?

/-- The rule of a category, if it needs one. -/
def rule? (t : Theme) (scope : String) (c : Category) : Option String :=
  if c.cssClass = "" then none
  else
    match t.styleFor? c with
    | none => none
    | some s =>
      match s.declarations with
      | [] => none
      | ds => some (scope ++ " ." ++ c.cssClass ++ " \x7b " ++ "; ".intercalate ds ++ "; \x7d\n")

/-- The style sheet for elements within a scope. -/
def css (t : Theme) (scope : String) : String :=
  String.join (Category.all.filterMap (t.rule? scope))

/-- The styles that categories have of their own, in listing order. -/
def ownStyles (t : Theme) : List (Category × Style) :=
  Category.all.filterMap fun c => (t.own? c).map fun s => (c, s)

/-- A light theme. -/
def github : Theme where
  name := "github"
  styles :=
    [(.error, { color := some "#a61717", background := some "#e3d2d2" }),
     (.comment, { color := some "#999988", italic := true }),
     (.commentPreproc, { color := some "#999999", bold := true }),
     (.commentPreprocFile, { color := some "#999999", bold := true }),
     (.keyword, { color := some "#000000", bold := true }),
     (.keywordType, { color := some "#445588", bold := true }),
     (.nameBuiltin, { color := some "#0086b3" }),
     (.nameClass, { color := some "#445588", bold := true }),
     (.nameFunction, { color := some "#990000", bold := true }),
     (.nameNamespace, { color := some "#555555" }),
     (.string, { color := some "#d14" }),
     (.number, { color := some "#009999" }),
     (.operator, { color := some "#000000", bold := true })]

/-- Adds the styles of named fields to a theme, in order. -/
def addFields? : Theme → List (String × Json) → Option Theme
  | t, [] => some t
  | t, (name, v) :: rest => do
    addFields? (t.withStyle (← Category.ofName? name) (← Style.ofJson? v)) rest

/-- Reads a theme. -/
def ofJson? (v : Json) : Option Theme :=
  match v.record? ["name", "styles"] with
  | some [name, .object fields] => do addFields? ⟨← name.text?, []⟩ fields
  | _ => none

end Theme

end Highlighting
