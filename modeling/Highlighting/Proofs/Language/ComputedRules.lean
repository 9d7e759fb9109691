import Highlighting.Proofs.Language.BuiltinLexers
import Highlighting.Proofs.Language.DisabledRules
import Highlighting.Proofs.Language.KeywordRules
import Highlighting.Proofs.Language.LineRules

/-!
# What is computed of the built-in lexers

What is computed of the grammars of C, of C++ and of C++ with the vocabulary of an engine is known of
each of their lexers (`CFamily.IsLexer.of_computed`): that they keep to their state stacks, that
their keywords are whole, and how preprocessor lines treat line breaks.
-/

namespace Highlighting

namespace CFamily

variable {l : Lexer}

/-- What is computed of the three grammars holds of the grammar of each lexer. -/
theorem IsLexer.of_computed {test : Grammar → Bool}
    (hc : ((tabledGrammar cTag .c).compileQuickly? []).any test = true)
    (hplain : (EngineVocabulary.plain?.any fun l => test l.grammar) = true)
    (hextended : (EngineVocabulary.extended?.any fun l => test l.grammar) = true)
    (h : IsLexer l) : test l.grammar = true := by
  obtain ⟨base, hbase, hbaseTest⟩ := (Option.any_eq_true _ _).1 hplain
  cases h with
  | c h =>
    obtain ⟨g, hg, hgTest⟩ := (Option.any_eq_true _ _).1 hc
    obtain rfl := Except.ok.inj (h.symm.trans (cLexer_value hg))
    exact hgTest
  | cpp h =>
    obtain ⟨g, -, hvalue⟩ := EngineVocabulary.exists_of_plain? hbase
    obtain rfl := Except.ok.inj (h.symm.trans hvalue)
    exact hbaseTest
  | engine h =>
    obtain ⟨ext, hext, hextTest⟩ := (Option.any_eq_true _ _).1 hextended
    obtain rfl := Except.ok.inj (h.symm.trans (EngineVocabulary.value_of_extended? hbase hext))
    exact hextTest

theorem IsLexer.keepsStacks (h : IsLexer l) : KeepsStacks l.grammar := by
  obtain ⟨base, ext, hbase, hext, hcomputed⟩ := EngineVocabulary.exists_computed
  refine .of_keepsStacks ?_
  cases h with
  | c h =>
    obtain ⟨c, hc, hkeeps⟩ := exists_cLexer
    obtain rfl := Except.ok.inj (h.symm.trans hc)
    exact hkeeps
  | cpp h =>
    obtain rfl := Except.ok.inj (h.symm.trans hbase)
    exact hcomputed.keepsStacks.1
  | engine h =>
    obtain rfl := Except.ok.inj (h.symm.trans hext)
    exact hcomputed.keepsStacks.2

/-- What is computed of the rules of code and of preprocessor lines. -/
def keepsRules (g : Grammar) : Bool := keepsKeywords g && keepsLines g

theorem rules_computed :
    ((tabledGrammar cTag .c).compileQuickly? []).any keepsRules = true ∧
    (EngineVocabulary.plain?.any fun l => keepsRules l.grammar) = true ∧
    (EngineVocabulary.extended?.any fun l => keepsRules l.grammar) = true := by
  refine ⟨?_, ?_, ?_⟩
  · decide +kernel
  · decide +kernel
  · decide +kernel

theorem IsLexer.keepsRules (h : IsLexer l) : CFamily.keepsRules l.grammar = true :=
  h.of_computed rules_computed.1 rules_computed.2.1 rules_computed.2.2

theorem IsLexer.keepsKeywords (h : IsLexer l) : KeepsKeywords l.grammar :=
  .of_keepsKeywords (Bool.and_eq_true_iff.1 h.keepsRules).1

theorem IsLexer.keepsLines (h : IsLexer l) : CFamily.keepsLines l.grammar = true :=
  (Bool.and_eq_true_iff.1 h.keepsRules).2

end CFamily

end Highlighting
