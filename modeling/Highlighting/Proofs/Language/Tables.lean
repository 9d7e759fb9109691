import Mathlib.Data.List.Nodup
import Highlighting.Language.CFamily
import Highlighting.Proofs.Grammar.Evaluation

/-!
# The keyword tables of C and C++

No word is listed twice (`CFamily.nodup_words`), so that each word has the category of the list that
it is in (`CFamily.keywordTable_eq`).  A grammar with its table written out as one list
(`CFamily.tabledGrammar`) is much quicker to evaluate, because nothing is looked up while the table
is made.
-/

namespace Highlighting

namespace KeywordTable

variable {t : KeywordTable} {category : Category} {words : List String}

theorem find?_eq_none {word : String} (h : word ∉ t.entries.map Prod.fst) : t.find? word = none := by
  rw [find?, Option.map_eq_none_iff, List.find?_eq_none]
  intro e he heq
  exact h (beq_iff_eq.1 heq ▸ List.mem_map_of_mem he)

/-- Words that are listed for the first time are all added. -/
theorem addAll_eq (h : (t.entries.map Prod.fst ++ words).Nodup) :
    t.addAll category words = { t with entries := t.entries ++ words.map (·, category) } := by
  induction words generalizing t with
  | nil =>
    rw [List.map_nil, List.append_nil]
    rfl
  | cons w words ih =>
    have hnew : w ∉ t.entries.map Prod.fst := fun hw =>
      (List.nodup_append.1 h).2.2 w hw w List.mem_cons_self rfl
    have hadd : t.add category w = { t with entries := t.entries ++ [(w, category)] } := by
      rw [add, find?_eq_none hnew]
      rfl
    have hrest : ((t.entries ++ [(w, category)]).map Prod.fst ++ words).Nodup := by
      simpa using h
    have hwords : t.addAll category (w :: words) = (t.add category w).addAll category words := rfl
    rw [hwords, hadd, ih hrest]
    simp

/-- The entries of lists of words with their categories. -/
def listing (lists : List (Category × List String)) : List (String × Category) :=
  lists.flatMap fun l => l.2.map (·, l.1)

theorem foldl_addAll_eq {lists : List (Category × List String)}
    (h : (t.entries.map Prod.fst ++ lists.flatMap Prod.snd).Nodup) :
    lists.foldl (fun t l => t.addAll l.1 l.2) t =
      { t with entries := t.entries ++ listing lists } := by
  induction lists generalizing t with
  | nil =>
    rw [listing, List.flatMap_nil, List.append_nil]
    rfl
  | cons l lists ih =>
    rw [List.flatMap_cons, ← List.append_assoc] at h
    have hrest : ((t.entries ++ l.2.map (·, l.1)).map Prod.fst ++ lists.flatMap Prod.snd).Nodup := by
      simpa [Function.comp_def] using h
    rw [List.foldl_cons, addAll_eq (List.nodup_append.1 h).1, ih hrest]
    simp [listing]

end KeywordTable

namespace CFamily

/-- The lists of words of C with their categories. -/
def cWordLists : List (Category × List String) :=
  [(.keyword, cKeywords), (.keywordType, cTypes), (.keywordReserved, cReserved),
    (.keywordConstant, cConstants), (.nameBuiltin, cBuiltins)]

/-- The lists of words of a dialect with their categories. -/
def wordLists : Dialect → List (Category × List String)
  | .c => cWordLists
  | .cpp => cWordLists ++
    [(.keyword, cppKeywords), (.keywordType, cppTypes), (.keywordConstant, cppConstants)]

/-- No word is listed twice. -/
theorem nodup_words (dialect : Dialect) : ((wordLists dialect).flatMap Prod.snd).Nodup := by
  have hcpp : ((wordLists .cpp).flatMap Prod.snd).Nodup := by
    -- numbers are compared much more quickly than texts
    refine List.Nodup.of_map (fun w => (quickChars w).foldl (fun n ch => n * 256 + ch.toNat) 0) ?_
    decide +kernel
  cases dialect with
  | c =>
    rw [wordLists, List.flatMap_append] at hcpp
    exact (List.nodup_append.1 hcpp).1
  | cpp => exact hcpp

/-- The table of a dialect, written out. -/
def table (dialect : Dialect) : KeywordTable := ⟨KeywordTable.listing (wordLists dialect), .name⟩

theorem keywordTable_eq (dialect : Dialect) : keywordTable dialect = table dialect := by
  have htable : keywordTable dialect =
      (wordLists dialect).foldl (fun t l => t.addAll l.1 l.2) (.ofFallback .name) := by
    -- folded for any lists, because the kernel would look the words up to compare the tables
    have hfive : ∀ (t : KeywordTable) (a b c d e : Category × List String),
        [a, b, c, d, e].foldl (fun t l => t.addAll l.1 l.2) t =
          ((((t.addAll a.1 a.2).addAll b.1 b.2).addAll c.1 c.2).addAll d.1 d.2).addAll e.1 e.2 :=
      fun _ _ _ _ _ _ => rfl
    have hthree : ∀ (t : KeywordTable) (a b c : Category × List String),
        [a, b, c].foldl (fun t l => t.addAll l.1 l.2) t =
          ((t.addAll a.1 a.2).addAll b.1 b.2).addAll c.1 c.2 :=
      fun _ _ _ _ => rfl
    cases dialect with
    | c => rw [wordLists, cWordLists, hfive, keywordTable]
    | cpp => rw [wordLists, cWordLists, List.foldl_append, hfive, hthree, keywordTable]
  have hnodup : ((KeywordTable.ofFallback .name).entries.map Prod.fst ++
      (wordLists dialect).flatMap Prod.snd).Nodup := nodup_words dialect
  rw [htable, KeywordTable.foldl_addAll_eq hnodup]
  rfl

/-- The grammar of a dialect with its table written out. -/
def tabledGrammar (name : String) (dialect : Dialect) : Definition :=
  ⟨name,
   [("whitespace", whitespaceState), ("if_0", disabledState), ("macro", macroState),
    ("string", stringState), ("statements", statementsState dialect (table dialect)),
    (rootState, rootEntries (table dialect))]⟩

theorem tabledGrammar_eq (name : String) (dialect : Dialect) :
    tabledGrammar name dialect = grammar name dialect := by
  rw [tabledGrammar, grammar, keywordTable_eq]

theorem cLexer_value {g : Grammar} (h : (tabledGrammar cTag .c).compileQuickly? [] = some g) :
    cLexer.value = .ok ⟨cInfo, cGrammar, g⟩ := by
  have hvalue := Extension.ofDefinition_value_of_compile cInfo h
  rwa [Extension.layered_nil, tabledGrammar_eq] at hvalue

end CFamily

end Highlighting
