import Highlighting.Proofs.Grammar.Extended
import Highlighting.Proofs.Registry

/-!
# Under which names an extended lexer is found

An extension without a tag of its own gives the extended lexer the name of its base as it is
written there, while a lexer is accepted as the base in any letter case and by its aliases.  So the
extended lexer takes the place of its base in a registry only when the name is the tag to the
letter.  Otherwise both stay, and the aliases lead to the base (`register_extended`).
-/

namespace Highlighting

namespace Registry

variable {calls : List Lexer} {base ext l m : Lexer} {x : Extension} {name : String}

theorem find?_filter_eq_some {α : Type} {xs : List α} {p q : α → Bool} {a : α}
    (h : xs.find? p = some a) (ha : q a = true) : (xs.filter q).find? p = some a := by
  obtain ⟨hp, before, after, rfl, hbefore⟩ := List.find?_eq_some_iff_append.1 h
  rw [List.filter_append, List.filter_cons_of_pos ha]
  exact List.find?_eq_some_iff_append.2 ⟨hp, _, _, rfl, fun b hb =>
    hbefore b (List.mem_of_mem_filter hb)⟩

/-- A lexer is still found by a name when another one is registered that has not its tag and does
not answer to the name. -/
theorem get?_registered_concat_of_not (hl : (registered calls).get? name = some l)
    (htag : l.tag ≠ m.tag) (hname : m.info.answersTo name = false) :
    (registered (calls ++ [m])).get? name = some l := by
  rw [get?, lexers_registered] at hl ⊢
  rw [lasting_concat, List.reverse_append, List.reverse_singleton, List.singleton_append,
    List.find?_cons_of_neg (by simp [hname]), ← List.filter_reverse]
  exact find?_filter_eq_some hl (by simpa using htag)

/-- A lexer that is registered stays when another one is registered under another tag. -/
theorem mem_registered_concat (hl : l ∈ (registered calls).lexers) (htag : l.tag ≠ m.tag) :
    l ∈ (registered (calls ++ [m])).lexers := by
  rw [lexers_registered] at hl ⊢
  rw [lasting_concat]
  exact List.mem_append_left _ (List.mem_filter.2 ⟨hl, by simpa using htag⟩)

/-- A registered lexer is the one held under its tag. -/
theorem held?_of_mem (hl : l ∈ (registered calls).lexers) :
    (registered calls).held? l.tag = some l := by
  have hsome : ((registered calls).held? l.tag).isSome := by
    rw [held?, List.find?_isSome]
    exact ⟨l, hl, beq_self_eq_true _⟩
  obtain ⟨m, hm⟩ := Option.isSome_iff_exists.1 hsome
  have htag : m.tag = l.tag := by simpa using List.find?_some hm
  have hnodup : ((registered calls).lexers.map Lexer.tag).Nodup := by
    rw [lexers_registered]
    exact nodup_tags_lasting calls
  rw [hm, List.inj_on_of_nodup_map hnodup (List.mem_of_find?_eq_some hm) hl htag]

/-- The name of the base is the tag of the extended lexer when the extension has no tag of its
own. -/
theorem extend_info (hown : x.ownTag = none) (hext : (x.extend base).value = .ok ext) :
    ext.info = { base.info with
      tag := x.base, aliases := if x.base = base.tag then base.info.aliases else [] } := by
  obtain ⟨-, -, hinfo, -, -⟩ := Extension.extend_eq_ok_iff.1 hext
  have htag : x.tag = x.base := by
    rw [Extension.tag, hown]
    rfl
  rwa [Extension.infoFor, htag] at hinfo

/-- A lexer that is extended under its tag to the letter is replaced. -/
theorem extended_in_place (hown : x.ownTag = none) (hext : (x.extend base).value = .ok ext)
    (hbase : base ∈ (registered calls).lexers) (hsame : x.base = base.tag) :
    ext.info = base.info ∧
      ((registered calls).register ext).value.2 = some base ∧
      (registered (calls ++ [ext])).lexers =
        (registered calls).lexers.filter (fun m => m.tag ≠ base.tag) ++ [ext] ∧
      ∀ name, (registered calls).get? name = some base →
        (registered (calls ++ [ext])).get? name = some ext := by
  have hkept : ext.info = base.info := by
    rw [extend_info hown hext, if_pos hsame, hsame]
    rfl
  have htag : ext.tag = base.tag := congrArg LexerInfo.tag hkept
  obtain ⟨-, hlexers⟩ := register_registered calls ext
  rw [← registered_concat, htag] at hlexers
  refine ⟨hkept, ?_, hlexers, fun name hname => get?_registered_concat ?_⟩
  · show (registered calls).held? ext.tag = some base
    rw [htag, held?_of_mem hbase]
  · obtain ⟨-, -, hanswers, -⟩ := get?_registered.1 hname
    rw [hkept]
    exact hanswers

/-- A lexer that is extended under another name that it answers to stays beside the extended
lexer. -/
theorem extended_beside (hown : x.ownTag = none) (hext : (x.extend base).value = .ok ext)
    (hbase : base ∈ (registered calls).lexers) (hother : x.base ≠ base.tag) :
    ext.info = { base.info with tag := x.base, aliases := [] } ∧
      base ∈ (registered (calls ++ [ext])).lexers ∧
      ∀ name, (registered calls).get? name = some base →
        (registered (calls ++ [ext])).get? name =
          some (if eqIgnoringAsciiCase x.base name = true then ext else base) := by
  have hinfo := extend_info hown hext
  rw [if_neg hother] at hinfo
  have htag : ext.tag = x.base := congrArg LexerInfo.tag hinfo
  have hnot : base.tag ≠ ext.tag := htag ▸ hother.symm
  have hanswers (name : String) : ext.info.answersTo name = eqIgnoringAsciiCase x.base name := by
    rw [hinfo]
    exact Bool.or_false _
  refine ⟨hinfo, mem_registered_concat hbase hnot, fun name hname => ?_⟩
  by_cases hcase : eqIgnoringAsciiCase x.base name = true
  · rw [if_pos hcase]
    exact get?_registered_concat ((hanswers name).trans hcase)
  · rw [if_neg hcase]
    exact get?_registered_concat_of_not hname hnot
      ((hanswers name).trans (Bool.eq_false_of_not_eq_true hcase))

/-- When the name that an extension has for its base is the tag of the base to the letter, the
extended lexer has its tag and aliases, takes its place in a registry, and is found by all names by
which the base was found.  When it is not, that name becomes the tag, the aliases are lost, and the
base stays registered: the extended lexer is found by the name that the extension has for the base,
in any letter case, and the base by the other names. -/
theorem register_extended (hown : x.ownTag = none) (hext : (x.extend base).value = .ok ext)
    (hbase : base ∈ (registered calls).lexers) :
    (x.base = base.tag → ext.info = base.info ∧
        ((registered calls).register ext).value.2 = some base ∧
        (registered (calls ++ [ext])).lexers =
          (registered calls).lexers.filter (fun m => m.tag ≠ base.tag) ++ [ext] ∧
        ∀ name, (registered calls).get? name = some base →
          (registered (calls ++ [ext])).get? name = some ext) ∧
      (x.base ≠ base.tag → ext.info = { base.info with tag := x.base, aliases := [] } ∧
        base ∈ (registered (calls ++ [ext])).lexers ∧
        ∀ name, (registered calls).get? name = some base →
          (registered (calls ++ [ext])).get? name =
            some (if eqIgnoringAsciiCase x.base name = true then ext else base)) :=
  ⟨extended_in_place hown hext hbase, extended_beside hown hext hbase⟩

theorem mem_registered_singleton (l : Lexer) : l ∈ (registered [l]).lexers := by
  rw [lexers_registered]
  exact List.mem_singleton_self l

/-- The names of plain text find its lexer. -/
theorem get?_plainText (hbase : PlainText.lexer.value = .ok base)
    (hname : PlainText.info.answersTo name = true) : (registered [base]).get? name = some base := by
  obtain ⟨hinfo, -⟩ := Extension.ofDefinition_eq_ok_iff.1 hbase
  show (registered ([] ++ [base])).get? name = some base
  exact get?_registered_concat (hinfo ▸ hname)

/-- Plain text with a keyword takes the place of plain text. -/
theorem register_extended_let : ∃ base ext : Lexer, PlainText.lexer.value = .ok base ∧
    (Extension.letExtension.extend base).value = .ok ext ∧
      Extension.letExtension.ownTag = none ∧ base ∈ (registered [base]).lexers ∧
      ext.info = base.info ∧ ((registered [base]).register ext).value.2 = some base ∧
      (registered [base, ext]).get? "TEXT" = some ext := by
  obtain ⟨base, ext, hbase, hext, -⟩ := Extension.exists_letLexer
  obtain ⟨hinfo, -⟩ := Extension.ofDefinition_eq_ok_iff.1 hbase
  have hmem := mem_registered_singleton base
  have hsame : Extension.letExtension.base = base.tag := (congrArg LexerInfo.tag hinfo).symm
  obtain ⟨hkept, hreplaced, -, hnames⟩ :=
    (register_extended rfl hext hmem).1 hsame
  exact ⟨base, ext, hbase, hext, rfl, hmem, hkept, hreplaced,
    hnames "TEXT" (get?_plainText hbase (by decide))⟩

/-- An extension of plain text that names it by an alias. -/
def byAlias : Extension := { base := "text" }

/-- Plain text is not replaced by its extension under the alias `text`, which has another tag and no
aliases, and is still found by its own tag. -/
theorem register_strays : ∃ base ext : Lexer, PlainText.lexer.value = .ok base ∧
    byAlias.ownTag = none ∧ base.info.answersTo byAlias.base = true ∧
      (byAlias.extend base).value = .ok ext ∧
      ext.tag ≠ base.tag ∧ ext.info.aliases ≠ base.info.aliases ∧
      base ∈ (registered [base, ext]).lexers ∧
      (registered [base]).get? "plaintext" = some base ∧
      (registered [base, ext]).get? "plaintext" = some base ∧ base ≠ ext := by
  have h : (PlainText.lexer.value.toOption.bind fun base =>
      (byAlias.extend base).value.toOption).isSome = true := by
    decide
  obtain ⟨ext, h⟩ := Option.isSome_iff_exists.1 h
  obtain ⟨base, hbase, hext⟩ := Option.bind_eq_some_iff.1 h
  replace hbase := Except.eq_ok_of_toOption hbase
  replace hext := Except.eq_ok_of_toOption hext
  obtain ⟨hinfo, -⟩ := Extension.ofDefinition_eq_ok_iff.1 hbase
  have hother : byAlias.base ≠ base.tag := by
    rw [Lexer.tag, hinfo]
    decide
  obtain ⟨hext', hstays, hnames⟩ :=
    extended_beside rfl hext (mem_registered_singleton base) hother
  have htag : ext.tag = "text" := congrArg LexerInfo.tag hext'
  have hne : ext.tag ≠ base.tag := htag ▸ hother
  have hfound : (registered [base]).get? "plaintext" = some base :=
    get?_plainText hbase (by decide)
  refine ⟨base, ext, hbase, rfl, (Extension.extend_eq_ok_iff.1 hext).1, hext, hne, ?_, hstays,
    hfound, (hnames "plaintext" hfound).trans (congrArg some (if_neg (by decide))),
    fun heq => hne (heq ▸ rfl)⟩
  rw [hext', hinfo]
  decide

end Registry

end Highlighting
