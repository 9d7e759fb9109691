import Highlighting.Proofs.Language.EngineLexers

/-!
# What the vocabulary of an engine changes

The tokens of C++ are found with the vocabulary of the engine, but for its words and for the
declarators that begin with one of them (`EngineVocabulary.tokenize_keeps`).  Such a declarator is
taken at once by the plain lexer, while the extended one takes its first word alone and what follows
by the other rules; so the name in front of the parenthesis is no longer that of a function.

The two lexers may find different numbers of tokens in a declarator, and the token limit then stops
one of them earlier than the other.
-/

namespace Highlighting

namespace EngineVocabulary

theorem reclassifies {base ext : Lexer} (hbase : CFamily.cppLexer.value = .ok base)
    (hext : lexer.value = .ok ext) :
    base.grammar.Reclassifies ext.grammar extension.words (CFamily.declares extension.words) := by
  have hcomputed := computed_of_value hbase hext
  obtain ⟨hplain, hfirst⟩ := Extension.namesIdentifiers_words namesIdentifiers
  have hextends := Extension.extend_extends hbase (lexer_value hbase hext)
  exact hextends.reclassifies hplain hfirst (hextends.keepsStates_rules hcomputed.keepsStates)
    (fun _ _ hr => Grammar.neverReenters_rules hcomputed.neverReenters hr)

/-- A token of C++ that is no word of the vocabulary, and is not part of a declarator that begins
with one, is found with the vocabulary as well.  Where there are such declarators, neither lexer may
be stopped by the token limit. -/
theorem tokenize_keeps {base ext : Lexer} (hbase : CFamily.cppLexer.value = .ok base)
    (hext : lexer.value = .ok ext) {prefs : LexicalPreferences}
    (hmerge : prefs.mergeAdjacent = false) {source : String}
    (hcut : declarators base prefs source = [] ∨
      (isCut base prefs source = false ∧ isCut ext prefs source = false))
    {t : Token} (ht : t ∈ tokensOf base prefs source) (hword : t.text ∉ extension.words)
    (hbeside : ∀ x ∈ declarators base prefs source,
      ¬ (x.1 ≤ t.span.start.offset ∧ t.span.stop.offset ≤ x.2)) :
    t ∈ tokensOf ext prefs source :=
  (reclassifies hbase hext).tokenize_kept hmerge rfl hcut ht hword hbeside

theorem tokenize_keeps_nameBehind : ∃ base ext : Lexer, CFamily.cppLexer.value = .ok base ∧
    lexer.value = .ok ext ∧ declarators base unmerged "T foo(x" = [(0, 6)] ∧
      nameBehind ∈ tokensOf base unmerged "T foo(x" ∧
      nameBehind ∈ tokensOf ext unmerged "T foo(x" := by
  obtain ⟨base, ext, hbase, hext, hcomputed⟩ := exists_computed
  have hfinds := hcomputed.findsFunctions
  have hloses := hcomputed.losesFunctions
  simp only [findsFunctions, Bool.and_eq_true, decide_eq_true_eq] at hfinds
  simp only [losesFunctions, Bool.and_eq_true, decide_eq_true_eq] at hloses
  obtain ⟨⟨-, hmem, hcut, hextents⟩, -⟩ := hfinds
  obtain ⟨⟨-, hcut'⟩, -⟩ := hloses
  refine ⟨base, ext, hbase, hext, hextents, hmem, ?_⟩
  refine tokenize_keeps hbase hext rfl (.inr ⟨hcut, hcut'⟩) hmem (by decide) ?_
  rw [hextents]
  decide

/-- The name of the function in `T foo(x` is not found with the vocabulary, though it is no word of
it.  Nor is a name behind the declarator in `T a::b(x y` if the token limit is five. -/
theorem tokenize_loses : ∃ base ext : Lexer, CFamily.cppLexer.value = .ok base ∧
    lexer.value = .ok ext ∧
    (∃ t ∈ tokensOf base unmerged "T foo(x", t.text ∉ extension.words ∧
      t ∉ tokensOf ext unmerged "T foo(x") ∧
    ∃ t ∈ tokensOf base unmergedFive "T a::b(x y", t.text ∉ extension.words ∧
      (∀ x ∈ declarators base unmergedFive "T a::b(x y",
        ¬ (x.1 ≤ t.span.start.offset ∧ t.span.stop.offset ≤ x.2)) ∧
      t ∉ tokensOf ext unmergedFive "T a::b(x y" := by
  obtain ⟨base, ext, hbase, hext, hcomputed⟩ := exists_computed
  have hfinds := hcomputed.findsFunctions
  have hloses := hcomputed.losesFunctions
  simp only [findsFunctions, Bool.and_eq_true, decide_eq_true_eq] at hfinds
  simp only [losesFunctions, Bool.and_eq_true, decide_eq_true_eq] at hloses
  obtain ⟨⟨hmem, -⟩, hmem', hextents⟩ := hfinds
  obtain ⟨⟨hnot, -⟩, hnot'⟩ := hloses
  refine ⟨base, ext, hbase, hext, ⟨_, hmem, by decide, hnot⟩, _, hmem', by decide,
    ?_, hnot'⟩
  rw [hextents]
  decide

end EngineVocabulary

end Highlighting
