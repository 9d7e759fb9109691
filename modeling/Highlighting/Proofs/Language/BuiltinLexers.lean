import Highlighting.Proofs.Language.EngineLexers
import Highlighting.Proofs.Registry

/-!
# The built-in lexers

What holds of the lexers of C, of C++ and of C++ with the vocabulary of an engine alike.  With the
lexer of plain text they are the lexers of the default registry, in which the engine's lexer has
taken the place of the one for C++ (`Registry.exists_defaults`).
-/

namespace Highlighting

namespace CFamily

theorem c_computed : ((tabledGrammar cTag .c).compileQuickly? []).any keepsStacks = true := by
  decide +kernel

theorem exists_cLexer : ∃ c : Lexer, cLexer.value = .ok c ∧ keepsStacks c.grammar = true := by
  obtain ⟨g, hg, hkeeps⟩ := (Option.any_eq_true _ _).1 c_computed
  exact ⟨_, cLexer_value hg, hkeeps⟩

/-- In every run of a built-in lexer of the C family the state stacks are as they should be: at
each point the scan is at top level, in a line, in a literal or in disabled blocks. -/
theorem exists_wellStacked : ∃ c cpp engine : Lexer, cLexer.value = .ok c ∧
    cppLexer.value = .ok cpp ∧ EngineVocabulary.lexer.value = .ok engine ∧
      ∀ l ∈ [c, cpp, engine], ∀ s : Scanner, s.grammar = l.grammar →
        ∀ source x, s.Visits source x → WellStacked s x := by
  obtain ⟨c, hc, hkeeps⟩ := exists_cLexer
  obtain ⟨cpp, engine, hcpp, hengine, hcomputed⟩ := EngineVocabulary.exists_computed
  refine ⟨c, cpp, engine, hc, hcpp, hengine, fun l hl s hs source x hx => ?_⟩
  have hl' : keepsStacks l.grammar = true := by
    simp only [List.mem_cons, List.not_mem_nil, or_false] at hl
    rcases hl with rfl | rfl | rfl
    · exact hkeeps
    · exact hcomputed.keepsStacks.1
    · exact hcomputed.keepsStacks.2
  exact wellStacked_of_keepsStacks (hs ▸ hl') hx

end CFamily

/-! ### The default registry -/

namespace Registry

theorem value_registerBuilt {r : Registry} {built : Logged (Except ExtensionError Lexer)}
    {rest : List (Logged (Except ExtensionError Lexer))} {l : Lexer} (h : built.value = .ok l) :
    (registerBuilt r (built :: rest)).value = (registerBuilt (r.insert l) rest).value := by
  rw [registerBuilt, Logged.value_bind_of h]
  rfl

theorem value_ofGrammar {built : Logged (Except GrammarError Lexer)} {l : Lexer}
    (h : built.value = .ok l) : (ofGrammar built).value = .ok l := by
  rw [ofGrammar, h]
  rfl

/-- The lexers that are built for the default registry. -/
theorem exists_builtLexers : ∃ plain c cpp engine : Lexer,
    PlainText.lexer.value = .ok plain ∧ CFamily.cLexer.value = .ok c ∧
      CFamily.cppLexer.value = .ok cpp ∧ EngineVocabulary.lexer.value = .ok engine ∧
      plain.info = PlainText.info ∧ c.info = CFamily.cInfo ∧ cpp.info = CFamily.cppInfo ∧
      engine.info = EngineVocabulary.extension.infoFor CFamily.cppInfo := by
  obtain ⟨plain, hplain, hplain'⟩ := exists_plainLexer PlainText.info
  obtain ⟨c, hc, -⟩ := CFamily.exists_cLexer
  obtain ⟨cpp, engine, hcpp, hengine, -⟩ := EngineVocabulary.exists_computed
  have hinfo := (Extension.ofDefinition_eq_ok_iff.1 hcpp).1
  refine ⟨plain, c, cpp, engine, hplain, hc, hcpp, hengine, hplain',
    (Extension.ofDefinition_eq_ok_iff.1 hc).1, hinfo, ?_⟩
  rw [← hinfo]
  exact (Extension.extend_eq_ok_iff.1 (EngineVocabulary.lexer_value hcpp hengine)).2.2.1

/-- The default registry holds the lexers of plain text, of C, and of C++ with the vocabulary. -/
theorem exists_defaults : ∃ plain c engine : Lexer,
    defaults.value = .ok ⟨[plain, c, engine]⟩ ∧ PlainText.lexer.value = .ok plain ∧
      plain.info = PlainText.info ∧ c.info = CFamily.cInfo ∧
      engine.info = EngineVocabulary.extension.infoFor CFamily.cppInfo := by
  obtain ⟨plain, c, cpp, engine, hplain, hc, hcpp, hengine, hplain', hc', hcpp', hengine'⟩ :=
    exists_builtLexers
  refine ⟨plain, c, engine, ?_, hplain, hplain', hc', hengine'⟩
  have hvalue : defaults.value = .ok ((((⟨[]⟩ : Registry).insert plain).insert c).insert cpp
      |>.insert engine) := by
    rw [defaults, value_registerBuilt (value_ofGrammar hplain),
      value_registerBuilt (value_ofGrammar hc), value_registerBuilt (value_ofGrammar hcpp),
      value_registerBuilt hengine]
    rfl
  have htag : plain.tag = "plaintext" ∧ c.tag = "c" ∧ cpp.tag = "cpp" ∧ engine.tag = "cpp" := by
    simp only [Lexer.tag, hplain', hc', hcpp', hengine']
    exact ⟨rfl, rfl, rfl, rfl⟩
  rw [hvalue]
  simp [insert, without, htag]

end Registry

end Highlighting
