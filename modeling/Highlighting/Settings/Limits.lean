/-!
# Fixed limits

The limits that no preference can lift.  They bound what is read, scanned and logged.
-/

namespace Highlighting

namespace Limits

/-- The largest source file, in bytes. -/
def maxFileSize : Nat := 10485760

/-- Files above this size, in bytes, count as large. -/
def largeFileThreshold : Nat := 1048576

/-- The most lines of a source file. -/
def maxLines : Nat := 200000

/-- The most tokens of one scan before the rest of the source is left unclassified. -/
def maxTokens : Nat := 1000000

/-- The most entries of a state stack, and the deepest nesting of scans in one another. -/
def maxStateDepth : Nat := 64

/-- The most words of one vocabulary. -/
def maxVocabularyWords : Nat := 4096

/-- The longest pattern of a vocabulary, in bytes. -/
def maxPatternLength : Nat := 65536

/-- The most bytes that a pattern may take once it is compiled. -/
def maxPatternWeight : Nat := 10485760

/-- The most events that a log in memory keeps. -/
def logBufferSize : Nat := 10000

/-- The longest message of an event, in bytes. -/
def maxMessageLength : Nat := 4096

/-- The rank of the severest level that no preference can silence. -/
def minLogRank : Nat := 1

/-- Where these limits come from. -/
def source : String := "Generated from config/development.toml"

end Limits

end Highlighting
