import Highlighting.Proofs.Files.Reading
import Highlighting.Proofs.Files.Writing
import Highlighting.Proofs.Glob
import Highlighting.Proofs.Registry

/-!
# Files with known extensions

A reader may refuse files whose extension no lexer names.  The lexers name extensions by patterns of
the form `*.ext`, and a file is read exactly if its extension is one of them, up to case and to
points in front (`SourceReader.read_known`).  That is not to be claimed by a lexer: a name may match
a pattern of another form, or match `*.ext` with nothing in front of the point and thus have no
extension.
-/

namespace Highlighting

/-! ### Extensions of file names -/

namespace Path

variable {name : String} {u x : List Char}

theorem dropWhile_reverse (hx : '.' ∉ x) (u : List Char) :
    (u ++ '.' :: x).reverse.dropWhile (· != '.') = '.' :: u.reverse ∧
      (u ++ '.' :: x).reverse.takeWhile (· != '.') = x.reverse := by
  have hall : ∀ c ∈ x.reverse, (c != '.') = true := fun c hc => by
    refine bne_iff_ne.2 fun heq => hx ?_
    exact heq ▸ List.mem_reverse.1 hc
  have hback : (u ++ '.' :: x).reverse = x.reverse ++ '.' :: u.reverse := by simp
  rw [hback, List.dropWhile_append_of_pos hall, List.takeWhile_append_of_pos hall]
  simp

/-- The extension is what is behind the last point. -/
theorem extensionOf?_append (hx : '.' ∉ x) (hu : u ≠ []) (hname : name.toList = u ++ '.' :: x)
    (hup : name ≠ "..") : extensionOf? name = some (String.ofList x) := by
  obtain ⟨hdrop, htake⟩ := dropWhile_reverse hx u
  obtain ⟨d, ds, hds⟩ := List.exists_cons_of_ne_nil (mt List.reverse_eq_nil_iff.1 hu)
  simp only [extensionOf?, if_neg hup, hname, hdrop, hds, htake, List.reverse_reverse]

/-- Behind a point that begins the name there is no extension. -/
theorem extensionOf?_point (hx : '.' ∉ x) (hname : name.toList = '.' :: x) :
    extensionOf? name = none := by
  rw [extensionOf?]
  split
  · rfl
  · have hdrop := (dropWhile_reverse hx []).1
    rw [List.nil_append, ← hname] at hdrop
    simp only [hdrop, List.reverse_nil]

end Path

/-- A file name that ends in a point and `ext`, in any case of ASCII letters, has the extension
`ext` without the points that it begins with, if it has an extension. -/
theorem extensionOf?_of_ends {name : String} {w v ext : List Char}
    (hname : name.toList = w ++ '.' :: v) (hv : v.map Char.toLower = ext.map Char.toLower)
    (hext : '.' ∉ dropPoints ext) (hup : name ≠ "..") (hsome : (Path.extensionOf? name).isSome) :
    ∃ e, Path.extensionOf? name = some e ∧
      eqIgnoringAsciiCase e (String.ofList (dropPoints ext)) = true := by
  have hlower : (dropPoints v).map Char.toLower = (dropPoints ext).map Char.toLower := by
    rw [← dropPoints_map_toLower, hv, dropPoints_map_toLower]
  have hpoint : '.' ∉ dropPoints v := fun hmem => by
    have hmem' : Char.toLower '.' ∈ (dropPoints ext).map Char.toLower :=
      hlower ▸ List.mem_map_of_mem hmem
    obtain ⟨c, hc, heq⟩ := List.mem_map.1 hmem'
    exact hext (toLower_eq_point.1 heq ▸ hc)
  -- the points behind the first one are in front of the last one
  obtain ⟨k, hpoints⟩ := exists_eq_replicate_append v
  have hsplit : name.toList = (w ++ List.replicate k '.') ++ '.' :: dropPoints v := by
    have hshift : '.' :: List.replicate k '.' = List.replicate k '.' ++ ['.'] :=
      List.replicate_succ'
    rw [hname]
    conv_lhs => rw [hpoints, ← List.cons_append, hshift]
    simp
  have hne : w ++ List.replicate k '.' ≠ [] := fun hnil => by
    rw [hnil, List.nil_append] at hsplit
    rw [Path.extensionOf?_point hpoint hsplit] at hsome
    cases hsome
  refine ⟨_, Path.extensionOf?_append hpoint hne hsplit hup, ?_⟩
  rw [eqIgnoringAsciiCase, String.toList_ofList, String.toList_ofList, hlower]
  exact beq_self_eq_true _

/-! ### Extensions that lexers name -/

namespace Registry

theorem mem_insertSorted {s t : String} {ts : List String} :
    t ∈ insertSorted s ts ↔ t = s ∨ t ∈ ts := by
  induction ts with
  | nil => simp [insertSorted]
  | cons u us ih =>
    rw [insertSorted]
    split
    · simp
    · split
      · next heq => simp [heq]
      · rw [List.mem_cons, ih, List.mem_cons]
        tauto

theorem mem_foldr_insertSorted {t : String} {ts : List String} :
    t ∈ ts.foldr insertSorted [] ↔ t ∈ ts := by
  induction ts with
  | nil => rfl
  | cons u us ih => rw [List.foldr_cons, mem_insertSorted, ih, List.mem_cons]

theorem mem_knownExtensions {r : Registry} {t : String} : t ∈ r.knownExtensions ↔
    ∃ l ∈ r.lexers, ∃ e ∈ l.info.extensions, lowercase e = t := by
  simp [knownExtensions, mem_foldr_insertSorted, List.mem_flatMap]

/-- A registered lexer has a pattern of the form `*.ext` for the extension of a file name, up to
case and without the points that `ext` begins with. -/
def NamesExtension (r : Registry) (name : String) : Prop :=
  ∃ l ∈ r.lexers, ∃ pattern ∈ l.info.filenames, ∃ e ext,
    LexerInfo.extensionOf? pattern = some e ∧ Path.extensionOf? name = some ext ∧
      lowercase (String.ofList (dropPoints e.toList)) = lowercase ext

end Registry

theorem LexerInfo.extensionOf?_eq_some {pattern e : String} (h : extensionOf? pattern = some e) :
    pattern = String.ofList ('*' :: '.' :: e.toList) ∧ '*' ∉ e.toList ∧ '?' ∉ e.toList := by
  rw [extensionOf?] at h
  split at h
  · next ext hpattern =>
    split at h
    · cases h
    · next hwild =>
      obtain rfl := Option.some.inj h
      rw [String.toList_ofList, ← hpattern, String.ofList_toList]
      simpa using hwild
  · cases h

/-- A file name matches a pattern of the form `*.ext`, where `ext` has no further wildcards and has
points only at its beginning. -/
structure LexerInfo.ClaimsByExtension (info : LexerInfo) (name pattern ext : String) : Prop where
  mem : pattern ∈ info.filenames
  isMatch : ∃ g, Glob.parse? pattern = some g ∧ g.isMatch name = true
  extension : extensionOf? pattern = some ext
  bracket : '[' ∉ ext.toList
  points : '.' ∉ dropPoints ext.toList

/-- A lexer that claims a name by such a pattern names the extension, if the name has one. -/
theorem Registry.namesExtension_of_claims {r : Registry} {l : Lexer} (hl : l ∈ r.lexers)
    {name pattern ext : String} (h : l.info.ClaimsByExtension name pattern ext)
    (hup : name ≠ "..") (hsome : (Path.extensionOf? name).isSome) : r.NamesExtension name := by
  obtain ⟨heq, hstar, hany⟩ := LexerInfo.extensionOf?_eq_some h.extension
  have hliteral : ∀ c ∈ ext.toList, Glob.isLiteral c = true := by
    intro c hc
    simp only [Glob.isLiteral, Bool.and_eq_true, bne_iff_ne]
    exact ⟨⟨fun h => hstar (h ▸ hc), fun h => hany (h ▸ hc)⟩, fun heq => h.bracket (heq ▸ hc)⟩
  obtain ⟨g, hg, hmatch⟩ := h.isMatch
  obtain ⟨w, v, hname, hv⟩ := Glob.exists_of_isMatch_extension hliteral (heq ▸ hg) hmatch
  obtain ⟨e, he, hsame⟩ := extensionOf?_of_ends hname hv h.points hup hsome
  exact ⟨l, hl, pattern, h.mem, ext, e, h.extension, he,
    (lowercase_eq_of_eqIgnoringAsciiCase hsame).symm⟩

namespace SourceReader

/-! ### Reading files with known extensions -/

theorem isKnown_withKnownExtensions (r : Registry) (prefs : FilePreferences) (name : String) :
    (withKnownExtensions ⟨prefs, []⟩ r.knownExtensions).isKnown
      ((Path.extensionOf? name).map lowercase) = true ↔ r.NamesExtension name := by
  have hlower : ∀ e : String, lowercase (String.ofList (dropPoints (lowercase e).toList)) =
      lowercase (String.ofList (dropPoints e.toList)) := fun e => by
    have hdrop : dropPoints (lowercase e).toList = (lowercase (String.ofList
        (dropPoints e.toList))).toList := by
      rw [lowercase, lowercase, String.toList_ofList, String.toList_ofList, String.toList_ofList,
        dropPoints_lowerChars]
    rw [hdrop, String.ofList_toList, lowercase_lowercase]
  cases hext : Path.extensionOf? name with
  | none => simp [isKnown, Registry.NamesExtension, hext]
  | some ext =>
    have hknown : (withKnownExtensions ⟨prefs, []⟩ r.knownExtensions).isKnown
        (some (lowercase ext)) = true ↔ ∃ known ∈ r.knownExtensions,
          lowercase (String.ofList (dropPoints known.toList)) = lowercase ext := by
      rw [isKnown, List.contains_iff_mem, withKnownExtensions, List.mem_map]
      rfl
    rw [Option.map_some, hknown]
    constructor
    · rintro ⟨known, hmem, hsame⟩
      obtain ⟨l, hl, e, he, rfl⟩ := Registry.mem_knownExtensions.1 hmem
      obtain ⟨pattern, hpattern, he⟩ := List.mem_filterMap.1 he
      exact ⟨l, hl, pattern, hpattern, e, ext, he, hext, (hlower e).symm.trans hsame⟩
    · rintro ⟨l, hl, pattern, hpattern, e, ext', he, hext', hsame⟩
      obtain rfl := Option.some.inj (hext.symm.trans hext')
      have hmem : e ∈ l.info.extensions := List.mem_filterMap.2 ⟨pattern, hpattern, he⟩
      exact ⟨lowercase e, Registry.mem_knownExtensions.2 ⟨l, hl, e, hmem, rfl⟩,
        (hlower e).trans hsame⟩

/-- A file that is in order is read if its extension is known, and else refused as one of an unknown
extension. -/
theorem value_read_known {r : SourceReader} (hrequire : r.preferences.requireKnown = true)
    {t : FileTree} {path : String} {p : Place} {contents : ByteArray} {text : String}
    (hfile : t.find? path = some (p, .file contents))
    (htext : String.fromUTF8? contents = some text) (hpos : 0 < contents.size)
    (hsize : contents.size ≤ Limits.maxFileSize) (hlines : lineCount text ≤ Limits.maxLines) :
    let ext := (p.getLast?.bind Path.extensionOf?).map lowercase
    (r.read t path).value =
      if r.isKnown ext then .ok ⟨text, p, contents.size, ext, lineCount text⟩
      else .error (.unknownExtension ext) := by
  intro ext
  have hdecode : (decode path p contents).value = .ok text := by
    rw [decode, htext]
  rw [value_read (locate_of_find?_file hfile) hdecode hlines, check,
    if_neg (Nat.not_lt.2 hsize), if_neg (Nat.ne_of_gt hpos), hrequire]
  cases hknown : r.isKnown ext with
  | true => rw [Bool.not_true]; rfl
  | false => rw [Bool.not_false]; rfl

/-- A reader that asks for known extensions, and knows those that registered lexers name, reads a
file that is in order if they name its extension, and refuses it as one of an unknown extension if
they do not.  So it reads the file if its name has an extension and a lexer claims it by a pattern
of the form `*.ext`, where `ext` has no further wildcards and has points only at its beginning. -/
theorem read_known (r : Registry) {prefs : FilePreferences} (hrequire : prefs.requireKnown = true)
    {t : FileTree} {path name : String} {p : Place} {contents : ByteArray} {text : String}
    (hfile : t.find? path = some (p, .file contents)) (hname : Path.fileName? path = some name)
    (htext : String.fromUTF8? contents = some text) (hpos : 0 < contents.size)
    (hsize : contents.size ≤ Limits.maxFileSize) (hlines : lineCount text ≤ Limits.maxLines) :
    let reader := withKnownExtensions ⟨prefs, []⟩ r.knownExtensions
    ((∃ f, (reader.read t path).value = .ok f ∧ f.text = text) ↔ r.NamesExtension name) ∧
    ((∃ ext, (reader.read t path).value = .error (.unknownExtension ext)) ↔
      ¬ r.NamesExtension name) ∧
    ((Path.extensionOf? name).isSome →
      (∃ l ∈ r.lexers, ∃ pattern ext, l.info.ClaimsByExtension name pattern ext) →
        ∃ f, (reader.read t path).value = .ok f ∧ f.text = text) := by
  intro reader
  have hlast := FileTree.getLast?_of_find?_file hfile hname
  have hvalue := value_read_known (r := reader) hrequire hfile htext hpos hsize hlines
  rw [hlast, Option.bind_some] at hvalue
  have hknown := isKnown_withKnownExtensions r prefs name
  have hread : (∃ f, (reader.read t path).value = .ok f ∧ f.text = text) ↔
      r.NamesExtension name := by
    rw [← hknown, hvalue]
    split
    · next h => exact ⟨fun _ => h, fun _ => ⟨_, rfl, rfl⟩⟩
    · next h => exact ⟨nofun, fun hnames => absurd hnames h⟩
  refine ⟨hread, ?_, fun hsome ⟨l, hl, _, _, hclaims⟩ => hread.2 ?_⟩
  · rw [← hknown, hvalue]
    split
    · next h => exact ⟨nofun, fun hnot => absurd h hnot⟩
    · next h => exact ⟨fun _ => h, fun _ => ⟨_, rfl⟩⟩
  · have hup := (Path.isPlain_of_fileName? hname).ne_up
    exact Registry.namesExtension_of_claims hl hclaims hup hsome

/-- A tree with one file. -/
def oneFile (name : String) : FileTree := { entries := [([name], .file "a\n".toUTF8)] }

/-- A file is read whose extension is in other letter case than in the pattern. -/
theorem read_known_capitals : ∃ l : Lexer, PlainText.lexer.value = .ok l ∧
    ∃ f, ((withKnownExtensions ⟨{ requireKnown := true }, []⟩
      (⟨[l]⟩ : Registry).knownExtensions).read (oneFile "a.TXT") "a.TXT").value = .ok f ∧
        f.text = "a\n" := by
  obtain ⟨l, hl, hinfo⟩ := Registry.exists_plainLexer PlainText.info
  have hrequire : ({ requireKnown := true } : FilePreferences).requireKnown = true := rfl
  have hfile : (oneFile "a.TXT").find? "a.TXT" = some (["a.TXT"], .file "a\n".toUTF8) := rfl
  have hname : Path.fileName? "a.TXT" = some "a.TXT" := by
    decide
  have hknown := read_known ⟨[l]⟩ hrequire hfile hname (fromUTF8?_toUTF8 "a\n") (by decide)
    (by decide) (Nat.le_trans (lineCount_le_length _) (by decide))
  have hclaims : l.info.ClaimsByExtension "a.TXT" "*.txt" "txt" := by
    have hmatch : ∃ g, Glob.parse? "*.txt" = some g ∧ g.isMatch "a.TXT" = true :=
      ⟨[.anyText, .char '.', .char 't', .char 'x', .char 't'], by decide, by decide⟩
    exact ⟨by rw [hinfo]; decide, hmatch, by decide, by decide, by decide⟩
  exact ⟨l, hl, hknown.2.2 (by decide) ⟨l, List.mem_cons_self, _, _, hclaims⟩⟩

/-- Patterns of several forms. -/
def sundryInfo : LexerInfo where
  tag := "sundry"
  title := "Sundry"
  filenames := ["Makefile", "*.[ch]", "*.tar.gz", "*.d*", "*.txt"]

/-- A lexer claims each of these files, and each is refused as one of an unknown extension: no
pattern names the extension of any, or the name has none. -/
theorem read_refuses_claimed : ∃ l : Lexer,
    (Lexer.ofDefinition sundryInfo PlainText.grammar).value = .ok l ∧
      ∀ name ∈ ["Makefile", "a.c", "a.tar.gz", "a.d2", ".txt"],
        (⟨[l]⟩ : Registry).forFilename? name = some l ∧ Path.fileName? name = some name ∧
        ∃ ext, ((withKnownExtensions ⟨{ requireKnown := true }, []⟩
          (⟨[l]⟩ : Registry).knownExtensions).read (oneFile name) name).value =
            .error (.unknownExtension ext) := by
  obtain ⟨l, hl, hinfo⟩ := Registry.exists_plainLexer sundryInfo
  have hmatches : ∀ name ∈ ["Makefile", "a.c", "a.tar.gz", "a.d2", ".txt"],
      sundryInfo.matchesFilename name = true ∧ Path.fileName? name = some name ∧
        (oneFile name).find? name = some ([name], .file "a\n".toUTF8) := by
    intro name hname
    simp only [List.mem_cons, List.not_mem_nil, or_false] at hname
    rcases hname with rfl | rfl | rfl | rfl | rfl <;>
      exact ⟨by decide, by decide, rfl⟩
  have hknown : (⟨[l]⟩ : Registry).knownExtensions = ["[ch]", "tar.gz", "txt"] := by
    simp only [Registry.knownExtensions, List.flatMap_cons, List.flatMap_nil, hinfo]
    decide
  have hunknown : ∀ name ∈ ["Makefile", "a.c", "a.tar.gz", "a.d2", ".txt"],
      (withKnownExtensions {} ["[ch]", "tar.gz", "txt"]).isKnown
        ((Path.extensionOf? name).map lowercase) = false := by
    decide
  refine ⟨l, hl, fun name hname => ?_⟩
  obtain ⟨hmatch, hfile, hfind⟩ := hmatches name hname
  have hvalue := value_read_known
    (r := withKnownExtensions ⟨{ requireKnown := true }, []⟩ (⟨[l]⟩ : Registry).knownExtensions)
    rfl hfind (fromUTF8?_toUTF8 "a\n") (by decide) (by decide)
    (Nat.le_trans (lineCount_le_length _) (by decide))
  refine ⟨List.find?_cons_of_pos (hinfo ▸ hmatch), hfile, _, hvalue.trans (if_neg ?_)⟩
  rw [hknown]
  exact Bool.eq_false_iff.1 (hunknown name hname)

end SourceReader

end Highlighting
