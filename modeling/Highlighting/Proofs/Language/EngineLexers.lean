import Highlighting.Language.EngineVocabulary
import Highlighting.Proofs.Language.ListedWords
import Highlighting.Proofs.Language.StateStacks
import Highlighting.Proofs.Language.Tables

/-!
# The lexers of an engine's language

What is computed of C++ with the vocabulary of an engine and of C++ without it
(`EngineVocabulary.exists_computed`).
-/

namespace Highlighting

namespace EngineVocabulary

/-- The tokens that a lexer finds in a source. -/
def tokensOf (l : Lexer) (prefs : LexicalPreferences) (source : String) : List Token :=
  (l.grammar.tokenize prefs source).value.tokens

/-- Whether the token limit stops a lexer in a source. -/
def isCut (l : Lexer) (prefs : LexicalPreferences) (source : String) : Bool :=
  (l.grammar.tokenize prefs source).value.metrics.truncated

/-- The extents of the declarators that begin with a word of the vocabulary, among the matches that
a lexer takes in a source. -/
def declarators (l : Lexer) (prefs : LexicalPreferences) (source : String) : List (Nat × Nat) :=
  Scanner.extents ⟨l.grammar, prefs.tokenLimit, prefs.logUnmatched⟩
    (CFamily.declares extension.words) source.toList

/-- Preferences under which neighbouring tokens are not joined. -/
def unmerged : LexicalPreferences := { mergeAdjacent := false }

/-- Preferences with a small token limit. -/
def unmergedFive : LexicalPreferences := { unmerged with maxTokens := 5 }

/-- The name `foo` in `T foo(x`. -/
def functionName : Token := ⟨.nameFunction, "foo", ⟨⟨2, 1, 3⟩, ⟨5, 1, 6⟩⟩⟩

/-- The name `x` in `T foo(x`. -/
def nameBehind : Token := ⟨.name, "x", ⟨⟨6, 1, 7⟩, ⟨7, 1, 8⟩⟩⟩

/-- The name `x` in `T a::b(x y`. -/
def nameBehindScoped : Token := ⟨.name, "x", ⟨⟨7, 1, 8⟩, ⟨8, 1, 9⟩⟩⟩

/-- What has to be computed of the plain lexer to see functions found behind words of the
vocabulary. -/
def findsFunctions (base : Lexer) : Bool :=
  decide (functionName ∈ tokensOf base unmerged "T foo(x" ∧
    nameBehind ∈ tokensOf base unmerged "T foo(x" ∧ isCut base unmerged "T foo(x" = false ∧
    declarators base unmerged "T foo(x" = [(0, 6)]) &&
  decide (nameBehindScoped ∈ tokensOf base unmergedFive "T a::b(x y" ∧
    declarators base unmergedFive "T a::b(x y" = [(0, 7)])

/-- What has to be computed of the extended lexer to see the same functions lost. -/
def losesFunctions (ext : Lexer) : Bool :=
  decide (functionName ∉ tokensOf ext unmerged "T foo(x" ∧ isCut ext unmerged "T foo(x" = false) &&
    decide (nameBehindScoped ∉ tokensOf ext unmergedFive "T a::b(x y")

/-- The states that are entered besides the root state, and that groups are scanned in. -/
def innerStates (g : Grammar) : List Nat :=
  ["statements", "string", "macro", "if_0"].filterMap g.stateIndex?

/-- Whether a token is a word of the vocabulary in another category than that of the first group
that lists it, outside of comments and literals. -/
def isMisplaced (t : Token) : Bool :=
  !t.category.isQuiet && (groups.find? (·.2.contains t.text)).any fun group => t.category != group.1

/-- Preferences under which all text is left unclassified. -/
def unmergedZero : LexicalPreferences := { unmerged with maxTokens := 0 }

/-- The name `T` in `f(T)`. -/
def argumentName : Token := ⟨.nameClass, "T", ⟨⟨2, 1, 3⟩, ⟨3, 1, 4⟩⟩⟩

/-- What has to be computed of the extended lexer to see words of the vocabulary in their category
and in others. -/
def showsWords (ext : Lexer) : Bool :=
  decide (argumentName ∈ tokensOf ext unmerged "f(T)") && !isCut ext unmerged "f(T)" &&
    (tokensOf ext unmerged "1T").any isMisplaced &&
    (tokensOf ext unmerged "enum init").any isMisplaced &&
    (tokensOf ext unmergedZero "T").any isMisplaced

/-- What has to be computed of the plain lexer to know where the words of the vocabulary are. -/
def sparesWords (base : Lexer) : Bool :=
  let inner := innerStates base.grammar
  let allowed := base.grammar.root :: inner
  base.grammar.stays inner [] && base.grammar.stays allowed inner &&
    allowed.all (base.grammar.sparesWords extension)

/-- What is computed of the two lexers. -/
structure Computed (base ext : Lexer) : Prop where
  keepsStates : extension.keepsStates base.grammar ext.grammar = true
  neverReenters : base.grammar.neverReenters = true
  sparesWords : sparesWords base = true
  findsFunctions : findsFunctions base = true
  losesFunctions : losesFunctions ext = true
  showsWords : showsWords ext = true
  keepsStacks : CFamily.keepsStacks base.grammar = true ∧ CFamily.keepsStacks ext.grammar = true

/-- The definition of C++. -/
def plainDefinition : Definition := CFamily.tabledGrammar CFamily.cppTag .cpp

/-- The plain lexer. -/
def plain? : Option Lexer :=
  (plainDefinition.compileQuickly? []).map (Lexer.mk CFamily.cppInfo CFamily.cppGrammar)

/-- The definition of C++ with the rules of the vocabulary. -/
def definition : Definition :=
  Extension.layered extension.rules (CFamily.cppGrammar.rename extension.tag)

/-- The extended lexer. -/
def extended? : Option Lexer :=
  ((plainDefinition.rename extension.tag).compileQuickly? extension.rules).map
    (Lexer.mk (extension.infoFor CFamily.cppInfo) definition)

theorem plainDefinition_eq : plainDefinition = CFamily.cppGrammar :=
  CFamily.tabledGrammar_eq CFamily.cppTag .cpp

theorem exists_of_plain? {base : Lexer} (h : plain? = some base) :
    ∃ g, base = ⟨CFamily.cppInfo, CFamily.cppGrammar, g⟩ ∧ CFamily.cppLexer.value = .ok base := by
  obtain ⟨g, hg, rfl⟩ := Option.map_eq_some_iff.1 h
  have hvalue := Extension.ofDefinition_value_of_compile CFamily.cppInfo hg
  rw [Extension.layered_nil, plainDefinition_eq] at hvalue
  exact ⟨g, rfl, hvalue⟩

theorem toRule_isOk : ∀ r ∈ extension.rules, ∃ rule, r.vocabulary.toRule = .ok rule := by
  have h : extension.rules.all (·.vocabulary.toRule.toOption.isSome) = true := by
    decide +kernel
  intro r hr
  obtain ⟨rule, hrule⟩ := Option.isSome_iff_exists.1 (List.all_eq_true.1 h r hr)
  exact ⟨rule, Except.eq_ok_of_toOption hrule⟩

/-- The rules of the vocabulary go into states of C++. -/
theorem fit_cppGrammar : Extension.Fit extension.rules CFamily.cppGrammar where
  accepted := toRule_isOk
  declared := by
    have hnames : ∀ state ∈ defaultContexts, state ∈ CFamily.cppGrammar.stateNames := by
      decide
    intro r hr state hstate
    obtain ⟨group, -, rfl⟩ := List.mem_map.1 hr
    exact hnames state hstate

theorem value_of_extended? {base ext : Lexer} (hbase : plain? = some base)
    (h : extended? = some ext) : lexer.value = .ok ext := by
  obtain ⟨g, rfl, hvalue⟩ := exists_of_plain? hbase
  obtain ⟨g', hg', rfl⟩ := Option.map_eq_some_iff.1 h
  have hanswers : CFamily.cppInfo.answersTo extension.base = true :=
    Bool.or_eq_true_iff.2 (.inl (eqIgnoringAsciiCase_self _))
  rw [plainDefinition_eq] at hg'
  rw [lexer, Logged.value_bind_of hvalue]
  exact Extension.extend_value_of_compile hanswers fit_cppGrammar hg'

theorem any_computed :
    (plain?.any fun base => base.grammar.neverReenters && findsFunctions base &&
      CFamily.keepsStacks base.grammar) = true ∧
    plain?.any sparesWords = true ∧
    (plain?.any fun base => extended?.any fun ext =>
      extension.keepsStates base.grammar ext.grammar && CFamily.keepsStacks ext.grammar) = true ∧
    (extended?.any fun ext => losesFunctions ext && showsWords ext) = true := by
  -- computed apart, because all that is computed at once is kept until its end
  refine ⟨?_, ?_, ?_, ?_⟩
  · decide +kernel
  · decide +kernel
  · decide +kernel
  · decide +kernel

/-- The two lexers can be built. -/
theorem exists_built : ∃ base ext : Lexer, plain? = some base ∧ extended? = some ext := by
  obtain ⟨base, hbase, hany⟩ := (Option.any_eq_true _ _).1 any_computed.2.2.1
  obtain ⟨ext, hext, -⟩ := (Option.any_eq_true _ _).1 hany
  exact ⟨base, ext, hbase, hext⟩

theorem exists_computed : ∃ base ext : Lexer, CFamily.cppLexer.value = .ok base ∧
    lexer.value = .ok ext ∧ Computed base ext := by
  obtain ⟨base, ext, hbase, hext⟩ := exists_built
  obtain ⟨hplain, hspares, hboth, hwords⟩ := any_computed
  rw [hbase] at hplain hspares hboth
  rw [hext] at hboth hwords
  simp only [Option.any_some, Bool.and_eq_true] at hplain hspares hboth hwords
  obtain ⟨⟨hnever, hfinds⟩, hplainStacks⟩ := hplain
  obtain ⟨hstates, hstacks⟩ := hboth
  obtain ⟨g, -, hvalue⟩ := exists_of_plain? hbase
  exact ⟨base, ext, hvalue, value_of_extended? hbase hext, hstates, hnever, hspares, hfinds,
    hwords.1, hwords.2, hplainStacks, hstacks⟩

theorem namesIdentifiers : extension.namesIdentifiers = true := by
  decide

/-- The two lexers have the computed properties, because there is one of each only. -/
theorem computed_of_value {base ext : Lexer} (hbase : CFamily.cppLexer.value = .ok base)
    (hext : lexer.value = .ok ext) : Computed base ext := by
  obtain ⟨base', ext', hbase', hext', h⟩ := exists_computed
  obtain rfl := Except.ok.inj (hbase.symm.trans hbase')
  obtain rfl := Except.ok.inj (hext.symm.trans hext')
  exact h

theorem lexer_value {base ext : Lexer} (hbase : CFamily.cppLexer.value = .ok base)
    (hext : lexer.value = .ok ext) : (extension.extend base).value = .ok ext := by
  -- rewritten as a whole, because the kernel would compute the two lexers to compare them
  rw [lexer, Logged.value_bind_of hbase] at hext
  exact hext

end EngineVocabulary

end Highlighting
