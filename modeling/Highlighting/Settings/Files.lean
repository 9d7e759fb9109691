/-!
# Preferences for reading files
-/

namespace Highlighting

/-- What a user may choose about the files that are read. -/
structure FilePreferences where
  /-- refuse files whose extension no lexer claims -/
  requireKnown : Bool := false
  /-- report the size of what was read in detail -/
  reportDetails : Bool := true
deriving DecidableEq, Inhabited

end Highlighting
