import Highlighting.Settings.Limits

/-!
# Preferences for scans
-/

namespace Highlighting

/-- What a user may choose about scans. -/
structure LexicalPreferences where
  /-- join neighbouring tokens of one category -/
  mergeAdjacent : Bool := true
  /-- count the tokens of each category -/
  detailedMetrics : Bool := true
  /-- report every character that no rule matches -/
  logUnmatched : Bool := false
  /-- the number of tokens after which the rest of the source is left unclassified -/
  maxTokens : Nat := Limits.maxTokens
deriving DecidableEq, Inhabited

namespace LexicalPreferences

/-- The token limit in force, never above the fixed one. -/
def tokenLimit (p : LexicalPreferences) : Nat := min p.maxTokens Limits.maxTokens

theorem tokenLimit_le (p : LexicalPreferences) : p.tokenLimit ≤ Limits.maxTokens :=
  Nat.min_le_right _ _

end LexicalPreferences

end Highlighting
