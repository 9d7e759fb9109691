/-!
# Preferences for rendering
-/

namespace Highlighting

/-- What a user may choose about HTML. -/
structure RenderPreferences where
  /-- put the code into elements that carry the class -/
  wrapOutput : Bool := true
  /-- number the lines -/
  lineNumbers : Bool := false
  /-- the class of the elements around the code -/
  cssClass : String := "highlight"
deriving DecidableEq, Inhabited

end Highlighting
