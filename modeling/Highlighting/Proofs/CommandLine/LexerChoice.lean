import Highlighting.CommandLine.Setup
import Highlighting.Proofs.Session
import Highlighting.Proofs.Files.Reading
import Highlighting.Proofs.Language.BuiltinLexers

/-!
# The choice of a lexer

A registry never loses a tag: what takes the place of a lexer has its tag.  The lexer of plain text
is the first that is built in, so after any extension files some lexer has its tag, if not the
built-in one then one that an extension has put in its place (`Registry.mem_tags_ofExtensionFiles`).
A look-up that falls back on plain text always finds a lexer, and no file is left without one
(`Registry.selectLexer_ofExtensionFiles`).
-/

namespace Highlighting

/-- An extension is read from the text of its file. -/
theorem Extension.ofFile_of_find?_file {t : FileTree} {path text : String} {p : List String}
    {contents : ByteArray} (hfile : t.find? path = some (p, .file contents))
    (htext : String.fromUTF8? contents = some text) : ofFile t path = parse text := by
  rw [ofFile, hfile]
  dsimp only
  rw [htext]

namespace Registry

variable {r r' : Registry} {paths : List String} {s : SessionState}

/-! ### Tags stay -/

theorem mem_without_of_ne {t : String} {l : Lexer} {ls : List Lexer} (h : l ∈ ls)
    (hne : l.tag ≠ t) : l ∈ without t ls := by
  induction ls with
  | nil => cases h
  | cons m ls ih =>
    rw [without]
    split
    · next hm =>
      rcases List.mem_cons.1 h with rfl | h
      · exact absurd hm hne
      · exact h
    · rcases List.mem_cons.1 h with rfl | h
      · exact List.mem_cons_self
      · exact List.mem_cons_of_mem _ (ih h)

/-- A lexer that is registered takes the place of none but the one with its tag. -/
theorem tags_subset_insert (r : Registry) (l : Lexer) : r.tags ⊆ (r.insert l).tags := by
  intro t ht
  obtain ⟨m, hm, rfl⟩ := List.mem_map.1 ht
  rw [tags, insert, List.map_append, List.mem_append]
  by_cases hne : m.tag = l.tag
  · exact .inr (List.mem_singleton.2 hne)
  · exact .inl (List.mem_map_of_mem (mem_without_of_ne hm hne))

/-- An extension file is registered in front of the others: it is read, its lexer is made with what
is registered, and the others find this lexer registered. -/
theorem withExtensionFiles_cons_of_ok {path : String} {x : Extension} {l : Lexer}
    (hx : (Extension.ofFile s.files path).value = .ok x) (hl : (x.lexerIn r).value = .ok l) :
    (r.withExtensionFiles (path :: paths) s).value =
      ((r.insert l).withExtensionFiles paths s).value := by
  simp only [withExtensionFiles, Session.bind_apply, Session.files, Session.logging, hx, hl]
  rfl

/-- Extension files are registered only if that can be done with the first one. -/
theorem withExtensionFiles_cons_eq_ok {path : String}
    (h : (r.withExtensionFiles (path :: paths) s).value = .ok r') :
    ∃ x l, (Extension.ofFile s.files path).value = .ok x ∧ (x.lexerIn r).value = .ok l ∧
      ((r.insert l).withExtensionFiles paths s).value = .ok r' := by
  cases hx : (Extension.ofFile s.files path).value with
  | error e =>
    simp only [withExtensionFiles, Session.bind_apply, Session.files, Session.logging, hx,
      Session.pure_apply] at h
    cases h
  | ok x =>
    cases hl : (x.lexerIn r).value with
    | error e =>
      simp only [withExtensionFiles, Session.bind_apply, Session.files, Session.logging, hx, hl,
        Session.pure_apply] at h
      cases h
    | ok l =>
      rw [withExtensionFiles_cons_of_ok hx hl] at h
      exact ⟨x, l, rfl, hl, h⟩

theorem tags_subset_withExtensionFiles (h : (r.withExtensionFiles paths s).value = .ok r') :
    r.tags ⊆ r'.tags := by
  induction paths generalizing r with
  | nil =>
    obtain rfl := Except.ok.inj h
    exact List.Subset.refl _
  | cons path paths ih =>
    obtain ⟨x, l, -, -, hrest⟩ := withExtensionFiles_cons_eq_ok h
    exact List.Subset.trans (tags_subset_insert r l) (ih hrest)

/-- The default registry comes first, whatever files follow. -/
theorem ofExtensionFiles_of_defaults (h : defaults.value = .ok r) :
    (ofExtensionFiles paths s).value = (r.withExtensionFiles paths s).value := by
  rw [ofExtensionFiles, Session.value_logging_bind_of h]

/-- After any extension files a lexer has the tag of plain text. -/
theorem mem_tags_ofExtensionFiles (h : (ofExtensionFiles paths s).value = .ok r) :
    PlainText.tag ∈ r.tags := by
  obtain ⟨plain, c, engine, hdefaults, -, hplain, -⟩ := exists_defaults
  rw [ofExtensionFiles_of_defaults hdefaults] at h
  refine tags_subset_withExtensionFiles h ?_
  have htag : plain.tag = PlainText.tag := congrArg LexerInfo.tag hplain
  exact List.mem_map.2 ⟨plain, List.mem_cons_self, htag⟩

/-! ### Look-ups that find a lexer -/

theorem exists_get?_of_mem_tags {t : String} (h : t ∈ r.tags) :
    ∃ l ∈ r.lexers, r.get? t = some l := by
  obtain ⟨m, hm, rfl⟩ := List.mem_map.1 h
  have hsome : (r.get? m.tag).isSome = true := by
    rw [get?, List.find?_isSome]
    exact ⟨m, List.mem_reverse.2 hm, Bool.or_eq_true_iff.2 (.inl (eqIgnoringAsciiCase_self _))⟩
  obtain ⟨l, hl⟩ := Option.isSome_iff_exists.1 hsome
  exact ⟨l, List.mem_reverse.1 (List.mem_of_find?_eq_some hl), hl⟩

/-- Where a lexer has the tag of plain text, one is found under every name. -/
theorem exists_find? (h : PlainText.tag ∈ r.tags) (name : String) :
    ∃ l ∈ r.lexers, (r.find? name).value = some l := by
  rw [find?]
  cases hl : r.get? name with
  | some l => exact ⟨l, List.mem_reverse.1 (List.mem_of_find?_eq_some hl), rfl⟩
  | none => exact exists_get?_of_mem_tags h

end Registry

namespace Highlighter

variable {h : Highlighter}

/-- With a lexer for plain text there is a lexer for every file. -/
theorem exists_selectLexer (hplain : PlainText.tag ∈ h.registry.tags) (path : String) :
    ∃ l ∈ h.registry.lexers, (h.selectLexer path).value = .ok l := by
  rw [selectLexer]
  cases h.lang with
  | some lang =>
    obtain ⟨l, hmem, hl⟩ := Registry.exists_find? hplain lang
    refine ⟨l, hmem, ?_⟩
    dsimp only
    rw [Logged.value_bind_of hl]
    rfl
  | none =>
    dsimp only
    cases hl : h.registry.forFilename? ((Path.fileName? path).getD "") with
    | some l => exact ⟨l, List.mem_reverse.1 (List.mem_of_find?_eq_some hl), rfl⟩
    | none =>
      obtain ⟨l, hmem, hl⟩ := Registry.exists_get?_of_mem_tags hplain
      refine ⟨l, hmem, ?_⟩
      dsimp only
      rw [hl]
      rfl

/-- A file that has a lexer is refused by the reader, if at all. -/
theorem highlightFile_ne_noLexer {path : String} {l : Lexer}
    (hl : (h.selectLexer path).value = .ok l) (s : SessionState) (name : String) :
    (h.highlightFile path s).value ≠ .error (.noLexer name) := by
  simp only [highlightFile, Session.bind_apply, Session.logging, hl, Session.files]
  cases (h.reader.read s.files path).value with
  | error e =>
    intro heq
    cases heq
  | ok f =>
    intro heq
    cases heq

end Highlighter

namespace Registry

variable {r r' : Registry} {paths : List String} {s : SessionState}

/-- Whatever extension files have been registered, a lexer is chosen for every file, with any
language that is asked for or none; so no file is refused for want of a lexer. -/
theorem selectLexer_ofExtensionFiles (hr : (ofExtensionFiles paths s).value = .ok r)
    {h : Highlighter} (hh : h.registry = r) (path : String) :
    (∃ l ∈ r.lexers, (h.selectLexer path).value = .ok l) ∧
      ∀ s' name, (h.highlightFile path s').value ≠ .error (.noLexer name) := by
  subst hh
  obtain ⟨l, hmem, hl⟩ := Highlighter.exists_selectLexer (mem_tags_ofExtensionFiles hr) path
  exact ⟨⟨l, hmem, hl⟩, Highlighter.highlightFile_ne_noLexer hl⟩

/-- An extension of plain text as it is written, with plain text itself in its place. -/
def letFile : String :=
  "base = \"plaintext\"\n[[rules]]\ncontexts = [\"root\"]\ncategory = \"Keyword\"\nwords=[\"let\"]"

/-- A session with the extension in a file. -/
def letSession : SessionState :=
  { files := { entries := [(["let.toml"], .file letFile.toUTF8)] } }

theorem ofFile_letFile :
    (Extension.ofFile letSession.files "let.toml").value = .ok Extension.letExtension := by
  have hparse : (Extension.parse letFile).value = .ok Extension.letExtension := by
    decide +kernel
  have hfind : letSession.files.find? "let.toml" = some (["let.toml"], .file letFile.toUTF8) := by
    rfl
  rw [Extension.ofFile_of_find?_file hfind (SourceReader.fromUTF8?_toUTF8 letFile)]
  exact hparse

/-- The extension takes the place of plain text. -/
theorem exists_ofExtensionFiles_let : ∃ r : Registry,
    (ofExtensionFiles ["let.toml"] letSession).value = .ok r ∧
      r.tags = ["c", "cpp", "plaintext"] := by
  obtain ⟨plain, c, engine, hdefaults, hplain, hplain', hc', hengine'⟩ := exists_defaults
  obtain ⟨plain₁, ext, hplain₁, hext, -⟩ := Extension.exists_letLexer
  obtain rfl := Except.ok.inj (hplain₁.symm.trans hplain)
  have hget : (⟨[plain₁, c, engine]⟩ : Registry).get? Extension.letExtension.base =
      some plain₁ := by
    simp only [get?, List.reverse_cons, List.reverse_nil, List.nil_append, List.cons_append]
    rw [List.find?_cons_of_neg (by rw [hengine']; decide),
      List.find?_cons_of_neg (by rw [hc']; decide),
      List.find?_cons_of_pos (by rw [hplain']; decide)]
  have hlexer : (Extension.letExtension.lexerIn ⟨[plain₁, c, engine]⟩).value = .ok ext := by
    rw [Extension.lexerIn, hget]
    exact hext
  refine ⟨(⟨[plain₁, c, engine]⟩ : Registry).insert ext, ?_, ?_⟩
  · rw [ofExtensionFiles_of_defaults hdefaults,
      withExtensionFiles_cons_of_ok ofFile_letFile hlexer]
    rfl
  · have hext' := (Extension.extend_eq_ok_iff.1 hext).2.2.1
    have htag : plain₁.tag = "plaintext" ∧ c.tag = "c" ∧ engine.tag = "cpp" ∧
        ext.tag = "plaintext" := by
      simp only [Lexer.tag, hext', hplain', hc', hengine']
      exact ⟨rfl, rfl, rfl, rfl⟩
    simp [tags, insert, without, htag]

/-- A lexer is chosen for a language that no lexer answers to, although the built-in lexer of plain
text is registered no more. -/
theorem selectLexer_ofExtensionFiles_let : ∃ r : Registry,
    (ofExtensionFiles ["let.toml"] letSession).value = .ok r ∧
      r.tags = ["c", "cpp", "plaintext"] ∧
      ∃ h : Highlighter, h.registry = r ∧ h.lang = some "fortran" ∧
        (∃ l ∈ r.lexers, (h.selectLexer "x.f90").value = .ok l) ∧
        ∀ s' name, (h.highlightFile "x.f90" s').value ≠ .error (.noLexer name) := by
  obtain ⟨r, hr, htags⟩ := exists_ofExtensionFiles_let
  exact ⟨r, hr, htags, { (default : Highlighter) with registry := r, lang := some "fortran" }, rfl,
    rfl, selectLexer_ofExtensionFiles hr rfl "x.f90"⟩

end Registry

end Highlighting
