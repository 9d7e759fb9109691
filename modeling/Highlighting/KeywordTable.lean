import Highlighting.Category

/-!
# Keyword tables

A keyword table classifies whole words: a listed word has the category it was first listed under,
and every other word has the table's fallback.
-/

namespace Highlighting

/-- Words with their categories, and the category of all other words. -/
structure KeywordTable where
  entries : List (String × Category) := []
  fallback : Category
deriving DecidableEq, Inhabited

namespace KeywordTable

/-- A table that lists no word. -/
def ofFallback (fallback : Category) : KeywordTable := ⟨[], fallback⟩

/-- The category that a word is listed under. -/
def find? (t : KeywordTable) (word : String) : Option Category :=
  (t.entries.find? fun e => e.1 == word).map (·.2)

/-- Lists a word unless it is listed already. -/
def add (t : KeywordTable) (category : Category) (word : String) : KeywordTable :=
  if (t.find? word).isSome then t else { t with entries := t.entries ++ [(word, category)] }

/-- Lists several words under one category, in order. -/
def addAll (t : KeywordTable) (category : Category) (words : List String) : KeywordTable :=
  words.foldl (fun t w => t.add category w) t

/-- The same words with another category for the rest. -/
def withFallback (t : KeywordTable) (fallback : Category) : KeywordTable := { t with fallback }

/-- The category of a word. -/
def classify (t : KeywordTable) (word : String) : Category := (t.find? word).getD t.fallback

/-- The number of listed words. -/
def size (t : KeywordTable) : Nat := t.entries.length

/-- A word keeps the category it was first listed under. -/
theorem find?_add (t : KeywordTable) (category : Category) (word other : String) :
    (t.add category word).find? other =
      if word = other then some ((t.find? word).getD category) else t.find? other := by
  unfold add
  split
  · rename_i h
    obtain ⟨c, hc⟩ := Option.isSome_iff_exists.1 h
    split
    · rename_i e
      subst e
      simp [hc]
    · rfl
  · rename_i h
    have hn : t.find? word = none := by simpa using h
    unfold find? at *
    by_cases e : word = other
    · subst e
      simp only [Option.map_eq_none_iff] at hn
      simp [List.find?_append, hn]
    · simp [List.find?_append, e]

end KeywordTable

end Highlighting
