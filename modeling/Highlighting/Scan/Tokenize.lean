import Highlighting.Scan.Scanner

/-!
# Tokenizing a source

`Grammar.tokenize` scans a source and gives its tokens their texts and positions, the metrics of
the scan and the events that were reported.
-/

namespace Highlighting

/-- Counters of one scan. -/
structure Metrics where
  totalTokens : Nat := 0
  bytesScanned : Nat := 0
  /-- the bytes of the characters that no rule matched -/
  fallbackCharacters : Nat := 0
  maxStackDepth : Nat := 0
  ignoredPushes : Nat := 0
  truncated : Bool := false
  /-- the number of tokens of each category that has one -/
  tokensByCategory : List (Category × Nat) := []
deriving DecidableEq, Inhabited

namespace Metrics

/-- The share of the bytes that a rule classified. -/
def coverage (m : Metrics) : Float :=
  if m.bytesScanned = 0 then 1.0
  else
    let share := m.fallbackCharacters.toFloat / m.bytesScanned.toFloat
    1.0 - (if share ≤ 1.0 then share else 1.0)

end Metrics

/-- Gives byte ranges their texts and positions.  The text begins at the position, and each range
begins at or after the end of the one before it. -/
def resolvePositions : Position → Nat → List Char → List RawToken → TokenStream
  | _, _, _, [] => []
  | place, offset, text, t :: ts =>
    let ahead := dropBytes (t.start - offset) text
    let cut := cutBytes [] (t.stop - t.start) ahead
    let span := Span.covering place cut.1
    ⟨t.category, String.ofList cut.1, span⟩ :: resolvePositions span.stop t.stop cut.2 ts

/-- The outcome of tokenizing a source. -/
structure Tokenized where
  tokens : TokenStream
  metrics : Metrics
deriving DecidableEq, Inhabited

namespace Grammar

/-- Tokenizes a source. -/
def tokenize (g : Grammar) (prefs : LexicalPreferences) (source : String) : Logged Tokenized :=
  let text := source.toList
  let size := source.utf8ByteSize
  let p := (Scanner.mk g prefs.tokenLimit prefs.logUnmatched).run text
  let raw := p.tokens.toList
  let raw := if prefs.mergeAdjacent then RawToken.mergeAdjacent raw else raw
  let tokens := resolvePositions .start 0 text raw
  let metrics : Metrics :=
    { totalTokens := tokens.length
      bytesScanned := size
      fallbackCharacters := p.unmatchedBytes
      maxStackDepth := p.maxDepth
      ignoredPushes := p.ignoredPushes
      truncated := p.truncated
      tokensByCategory := if prefs.detailedMetrics then TokenStream.counts tokens else [] }
  ⟨⟨tokens, metrics⟩,
   [.debug "Starting lexical analysis" [("grammar", g.name), ("bytes", toString size)]] ++
   p.events.toList ++
   [.success .tokenizationComplete "Tokenization completed"
    [("grammar", g.name), ("tokens", toString tokens.length),
     ("fallback_chars", toString p.unmatchedBytes)]]⟩

end Grammar

end Highlighting
