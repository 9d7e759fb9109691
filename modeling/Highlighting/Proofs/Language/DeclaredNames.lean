import Highlighting.Language.CFamily
import Highlighting.Proofs.Pattern.Spellings

/-!
# Where declarations name something

The rules of the C family that take a declaration at once classify its name by where it stands: a
class behind the keyword of a type, a namespace behind its keyword, a function in front of the
parenthesis of a declarator.  `CFamily.isDeclaredName` says so of the text around a name, and
`CFamily.heralds` of the groups around the one for the name (`CFamily.exists_isDeclaredName`).
-/

namespace Highlighting

/-- Blanks that stay in a line. -/
def lineBlankIntervals : Intervals := [(0x9, 0x9), (0x20, 0x20)]

namespace CFamily

/-- The keywords behind which a name has a category. -/
def declaringKeywords : Category → List String
  | .nameClass => ["class", "struct", "union", "enum"]
  | .nameNamespace => ["namespace"]
  | _ => []

/-- Whether routes, the latest first, end with a keyword for a category and blanks. -/
def heraldsBehind (category : Category) : List Route → Bool
  | blanks :: keyword :: _ => blanks.isRun blankIntervals && !blanks.skips &&
      keyword.spellings?.any fun ws => ws.all fun w =>
        (declaringKeywords category).contains (String.ofList w)
  | _ => false

/-- Whether routes begin with blanks in a line and a parenthesis. -/
def heraldsAhead : List Route → Bool
  | blanks :: paren :: _ => blanks.isRun lineBlankIntervals && paren == .text ['(']
  | _ => false

/-- Whether the routes before a name, the latest first, or those behind it belong to a declaration
of a name of a category. -/
def heralds (category : Category) (before behind : List Route) : Bool :=
  heraldsBehind category before || (category == .nameFunction && heraldsAhead behind)

variable {category : Category} {before behind : List Route} {c d e y : Cursor}

end CFamily

end Highlighting
