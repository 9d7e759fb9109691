import Highlighting.CommandLine.Batch
import Highlighting.Proofs.Files.Reading
import Highlighting.Proofs.Files.Writing
import Highlighting.Proofs.Session

/-!
# What a batch writes

The output for an input has a path that is made of the file name of the input, so that two inputs
have one path for their outputs exactly when their file names are the same (`outputPath_inj`).
After a batch there is, for each file name, the output for the input that was the last one with this
name to be highlighted and written (`Highlighter.runBatch_outputs`): what was written before for
another input with the same name is lost (`Highlighter.runBatch_collides`).
-/

namespace Highlighting

open Session

variable {folder path name : String} {format : OutputFormat}

/-! ### Paths of outputs -/

/-- The name of the output for an input that has a file name. -/
def outputName (name : String) (format : OutputFormat) : String := name ++ ("." ++ format.name)

theorem outputPath_eq (h : Path.fileName? path = some name) (folder : String)
    (format : OutputFormat) :
    outputPath folder path format = Path.join folder (outputName name format) := by
  rw [outputPath, h, Option.getD_some, outputName, String.append_assoc]

theorem isPlain_outputName (h : Path.fileName? path = some name) (format : OutputFormat) :
    Path.IsPlain (outputName name format) := by
  have hslash : '/' ∉ ("." ++ format.name).toList := by
    cases format <;> decide
  have hlength : 2 < ("." ++ format.name).length := by
    cases format <;> decide
  refine (Path.isPlain_of_fileName? h).append hslash ?_
  rw [String.length_append]
  exact Nat.lt_of_lt_of_le hlength (Nat.le_add_left _ _)

theorem outputName_inj {name' : String} :
    outputName name format = outputName name' format ↔ name = name' := by
  rw [outputName, outputName, String.append_left_inj]

/-- Inputs have the same path for their outputs when they have the same file name, and only
then. -/
theorem outputPath_inj {path' : String} (h : (Path.fileName? path).isSome = true)
    (h' : (Path.fileName? path').isSome = true) :
    outputPath folder path format = outputPath folder path' format ↔
      Path.fileName? path = Path.fileName? path' := by
  obtain ⟨name, hname⟩ := Option.isSome_iff_exists.1 h
  obtain ⟨name', hname'⟩ := Option.isSome_iff_exists.1 h'
  rw [outputPath_eq hname, outputPath_eq hname', Path.join_inj, outputName_inj, hname, hname',
    Option.some_inj]

namespace Highlighter

variable {h : Highlighter} {s : SessionState}

/-! ### One file of a batch -/

theorem isSilent_highlightFile (h : Highlighter) (path : String) :
    IsSilent (h.highlightFile path) := by
  refine (isSilent_logging _).bind fun selected => ?_
  cases selected with
  | error e => exact isSilent_pure _
  | ok l =>
    refine isSilent_files.bind fun t => (isSilent_logging _).bind fun file => ?_
    cases file with
    | error e => exact isSilent_pure _
    | ok f =>
      exact (isSilent_logging _).bind fun _ => (isSilent_note _ _ _).bind fun _ => isSilent_pure _

/-- What becomes of one file of a batch: it is not highlighted, and no file changes, or its output
is written, which may fail. -/
theorem process_cases (h : Highlighter) (folder path : String) (s : SessionState) :
    (∃ e, (h.highlightFile path s).value = .error e ∧
      (h.process (some folder) path s).value = true ∧
      (h.process (some folder) path s).state.files = s.files) ∨
    ∃ text, (h.highlightFile path s).value = .ok text ∧
      (h.process (some folder) path s).state.files =
        (s.files.write (outputPath folder path h.format) text.toUTF8).1 ∧
      ((∃ cause, (s.files.write (outputPath folder path h.format) text.toUTF8).2 = .error cause ∧
          (h.process (some folder) path s).value = true) ∨
        (s.files.write (outputPath folder path h.format) text.toUTF8).2 = .ok () ∧
          (h.process (some folder) path s).value = false) := by
  have hfiles := (h.isSilent_highlightFile path).files_eq s
  cases hresult : h.highlightFile path s with
  | mk value state effects =>
    rw [hresult] at hfiles
    dsimp only at hfiles
    cases value with
    | error e =>
      refine .inl ⟨e, rfl, ?_⟩
      simp only [process, bind_apply, hresult, pure_apply]
      exact ⟨trivial, hfiles⟩
    | ok text =>
      refine .inr ⟨text, rfl, ?_⟩
      rw [← hfiles]
      cases hwritten : state.files.write (outputPath folder path h.format) text.toUTF8 with
      | mk t r =>
        cases r with
        | error cause =>
          simp only [process, deliver, bind_apply, hresult, Session.write, hwritten, pure_apply]
          exact ⟨rfl, .inl ⟨cause, rfl, trivial⟩⟩
        | ok _ =>
          simp only [process, deliver, bind_apply, hresult, Session.write, hwritten, pure_apply]
          exact ⟨rfl, .inr ⟨trivial, trivial⟩⟩

/-! ### The turns of a batch -/

/-- The files of a batch in order, the first of which has a given number, each with the state in
which it is highlighted. -/
def turns (h : Highlighter) (outputDir : Option String) :
    Nat → List String → SessionState → List (String × SessionState)
  | _, [], _ => []
  | id, path :: paths, s =>
    let s := { s with current := some ⟨path, id⟩ }
    let later := { (h.process outputDir path s).state with current := none }
    (path, s) :: turns h outputDir (id + 1) paths later

/-- The turn of a file fails. -/
def fails (h : Highlighter) (outputDir : Option String) (turn : String × SessionState) : Bool :=
  (h.process outputDir turn.1 turn.2).value

/-- What a batch comes to is what the turns after its first one come to. -/
theorem runFrom_cons (h : Highlighter) (outputDir : Option String) (id : Nat) (b : BatchSummary)
    (path : String) (paths : List String) (s : SessionState) :
    ∃ s₁ : SessionState, s₁ = { s with current := some ⟨path, id⟩ } ∧
      ∃ s₂, s₂ = { (h.process outputDir path s₁).state with current := none } ∧
        h.turns outputDir id (path :: paths) s =
          (path, s₁) :: h.turns outputDir (id + 1) paths s₂ ∧
        (h.runFrom outputDir id b (path :: paths) s).value =
          (h.runFrom outputDir (id + 1) (b.add (h.fails outputDir (path, s₁))) paths s₂).value ∧
        (h.runFrom outputDir id b (path :: paths) s).state =
          (h.runFrom outputDir (id + 1) (b.add (h.fails outputDir (path, s₁))) paths s₂).state :=
  ⟨_, rfl, _, rfl, rfl, rfl, rfl⟩

theorem runFrom_value (h : Highlighter) (outputDir : Option String) (id : Nat) (b : BatchSummary)
    (files : List String) (s : SessionState) :
    (h.runFrom outputDir id b files s).value =
      ⟨b.processed + files.length,
        b.failed + (h.turns outputDir id files s).countP (h.fails outputDir)⟩ := by
  induction files generalizing id b s with
  | nil => rfl
  | cons path paths ih =>
    obtain ⟨s₁, -, s₂, -, hturns, hvalue, -⟩ := h.runFrom_cons outputDir id b path paths s
    rw [hvalue, ih, hturns, List.countP_cons, List.length_cons]
    cases h.fails outputDir (path, s₁) <;> simp [BatchSummary.add] <;> omega

/-- A batch has seen all its files, and the failures that it counts are the turns that failed. -/
theorem runBatch_value (h : Highlighter) (outputDir : Option String) (files : List String)
    (s : SessionState) :
    (h.runBatch files outputDir s).value =
      ⟨files.length, (h.turns outputDir 1 files s).countP (h.fails outputDir)⟩ := by
  rw [runBatch, runFrom_value]
  simp

section Lasting

variable {contents : ByteArray} (hname : (Path.fileName? path).isSome = true)

include hname

/-- An output stays when another input is highlighted, unless this has the same file name and does
not fail. -/
theorem hasFile_process {path' : String} (hname' : (Path.fileName? path').isSome = true)
    (hlast : Path.fileName? path' = Path.fileName? path →
      h.fails (some folder) (path', s) = true)
    (hfile : s.files.HasFile (outputPath folder path h.format) contents) :
    (h.process (some folder) path' s).state.files.HasFile
      (outputPath folder path h.format) contents := by
  obtain ⟨_, -, -, hfiles⟩ | ⟨text, -, hfiles, ⟨cause, hcause, -⟩ | ⟨-, hwritten⟩⟩ :=
    h.process_cases folder path' s
  · rwa [hfiles]
  · rw [hfiles]
    exact hfile.write_of_error hcause
  · obtain ⟨name, hname⟩ := Option.isSome_iff_exists.1 hname
    obtain ⟨name', hname'⟩ := Option.isSome_iff_exists.1 hname'
    rw [outputPath_eq hname] at hfile ⊢
    rw [hfiles, outputPath_eq hname']
    refine hfile.write_of_ne (isPlain_outputName hname _) (isPlain_outputName hname' _) fun heq => ?_
    have hsame := hlast (by rw [hname, hname', outputName_inj.1 heq])
    rw [fails, hwritten] at hsame
    cases hsame

theorem hasFile_runFrom {id : Nat} {b : BatchSummary} {files : List String}
    (hnames : ∀ path ∈ files, (Path.fileName? path).isSome = true)
    (hlast : ∀ turn ∈ h.turns (some folder) id files s,
      Path.fileName? turn.1 = Path.fileName? path → h.fails (some folder) turn = true)
    (hfile : s.files.HasFile (outputPath folder path h.format) contents) :
    (h.runFrom (some folder) id b files s).state.files.HasFile
      (outputPath folder path h.format) contents := by
  induction files generalizing id b s with
  | nil => exact hfile
  | cons path' paths ih =>
    obtain ⟨s₁, rfl, s₂, rfl, hturns, -, hstate⟩ := h.runFrom_cons (some folder) id b path' paths s
    rw [hturns, List.forall_mem_cons] at hlast
    rw [List.forall_mem_cons] at hnames
    rw [hstate]
    exact ih hnames.2 hlast.2 (hasFile_process hname hnames.1 hlast.1 hfile)

end Lasting

/-- After a batch there is, for each file name, the output for the last input of this name that was
highlighted and written. -/
theorem hasFile_of_turns {id : Nat} {b : BatchSummary} {files : List String}
    {before after : List (String × SessionState)} {s' : SessionState}
    (hnames : ∀ path ∈ files, (Path.fileName? path).isSome = true)
    (hturns : h.turns (some folder) id files s = before ++ (path, s') :: after)
    (hok : h.fails (some folder) (path, s') = false)
    (hlast : ∀ turn ∈ after,
      Path.fileName? turn.1 = Path.fileName? path → h.fails (some folder) turn = true) :
    ∃ text, (h.highlightFile path s').value = .ok text ∧
      (h.runFrom (some folder) id b files s).state.files.HasFile
        (outputPath folder path h.format) text.toUTF8 := by
  induction before generalizing id b files s with
  | nil =>
    cases files with
    | nil => cases hturns
    | cons path' paths =>
      obtain ⟨s₁, -, s₂, rfl, hcons, -, hstate⟩ := h.runFrom_cons (some folder) id b path' paths s
      rw [hcons, List.nil_append, List.cons.injEq, Prod.mk.injEq] at hturns
      obtain ⟨⟨rfl, rfl⟩, rfl⟩ := hturns
      rw [List.forall_mem_cons] at hnames
      obtain ⟨_, -, hfailed, -⟩ | ⟨text, htext, hfiles, ⟨_, -, hfailed⟩ | ⟨hwritten, -⟩⟩ :=
        h.process_cases folder path' s₁
      · rw [fails, hfailed] at hok
        cases hok
      · rw [fails, hfailed] at hok
        cases hok
      · refine ⟨text, htext, ?_⟩
        rw [hstate]
        refine hasFile_runFrom hnames.1 hnames.2 hlast ?_
        rw [hfiles]
        exact FileTree.hasFile_of_write hwritten
  | cons turn before ih =>
    cases files with
    | nil => cases hturns
    | cons path' paths =>
      obtain ⟨s₁, -, s₂, -, hcons, -, hstate⟩ := h.runFrom_cons (some folder) id b path' paths s
      rw [hcons, List.cons_append, List.cons.injEq] at hturns
      rw [List.forall_mem_cons] at hnames
      rw [hstate]
      exact ih hnames.2 hturns.2

/-- Inputs have the same path for their outputs exactly when they have the same file name, and after
a batch the output that is found there is the one for the last input of this name that was
highlighted and written.  So each input has its own output when no file name comes twice. -/
theorem runBatch_outputs (h : Highlighter) (folder : String) (files : List String)
    (s : SessionState) (hnames : ∀ path ∈ files, (Path.fileName? path).isSome = true) :
    (∀ p ∈ files, ∀ q ∈ files, outputPath folder p h.format = outputPath folder q h.format ↔
      Path.fileName? p = Path.fileName? q) ∧
    (h.runBatch files (some folder) s).value =
      ⟨files.length, (h.turns (some folder) 1 files s).countP (h.fails (some folder))⟩ ∧
    ∀ before path s' after, h.turns (some folder) 1 files s = before ++ (path, s') :: after →
      h.fails (some folder) (path, s') = false →
      (∀ turn ∈ after, Path.fileName? turn.1 = Path.fileName? path →
        h.fails (some folder) turn = true) →
      ∃ text, (h.highlightFile path s').value = .ok text ∧
        (h.runBatch files (some folder) s).state.files.HasFile
          (outputPath folder path h.format) text.toUTF8 :=
  ⟨fun p hp q hq => outputPath_inj (hnames p hp) (hnames q hq), h.runBatch_value _ files s,
    fun _ _ _ _ hturns hok hlast => hasFile_of_turns hnames hturns hok hlast⟩

/-! ### Two inputs with the same file name -/

/-- The output for a file that is read, with the lexer that is found for it. -/
theorem highlightFile_value {l : Lexer} {f : SourceFile}
    (hlexer : (h.selectLexer path).value = .ok l)
    (hread : (h.reader.read s.files path).value = .ok f) :
    (h.highlightFile path s).value =
      .ok (h.rendered (l.grammar.tokenize h.lexical f.text).value.tokens) := by
  rw [highlightFile, value_bind_of hlexer]
  have hread' : (logging (h.reader.read s.files path) s).value = .ok f := hread
  exact (value_bind_of rfl _).trans (value_bind_of hread' _)

/-- The turn of a file that is highlighted and written. -/
theorem process_of_written {text : String} (htext : (h.highlightFile path s).value = .ok text)
    (hwrite : (s.files.write (outputPath folder path h.format) text.toUTF8).2 = .ok ()) :
    h.fails (some folder) (path, s) = false ∧
      (h.process (some folder) path s).state.files =
        (s.files.write (outputPath folder path h.format) text.toUTF8).1 := by
  obtain ⟨_, herror, -⟩ | ⟨text', htext', hfiles, hcase⟩ := h.process_cases folder path s
  · cases htext.symm.trans herror
  · obtain rfl := Except.ok.inj (htext.symm.trans htext')
    obtain ⟨_, hcause, -⟩ | ⟨-, hfails⟩ := hcase
    · cases hwrite.symm.trans hcause
    · exact ⟨hfails, hfiles⟩

/-- A highlighter that knows plain text only, and writes it without markup around it. -/
def plainText : Highlighter where
  registry := ⟨PlainText.lexer.value.toOption.toList⟩
  reader := {}
  lang := none
  format := .html
  render := { wrapOutput := false }
  lexical := {}

/-- Plain text is written as it is. -/
theorem plainText_highlightFile {place : Place} {contents : ByteArray} {text : String}
    (hlexer : ((plainText.selectLexer path).value.toOption.any fun l =>
      plainText.rendered (l.grammar.tokenize plainText.lexical text).value.tokens == text) = true)
    (hlocate : (SourceReader.locate s.files path).value = .ok (place, contents))
    (hcheck : ∀ ext, (plainText.reader.check path contents.size ext).value = .ok ())
    (hdecode : (SourceReader.decode path place contents).value = .ok text)
    (hlength : text.toList.length ≤ Limits.maxLines) :
    (plainText.highlightFile path s).value = .ok text := by
  cases hl : (plainText.selectLexer path).value with
  | error e => simp [hl, Except.toOption] at hlexer
  | ok l =>
    rw [hl] at hlexer
    have hread := SourceReader.value_read (r := plainText.reader) hlocate hdecode
      (Nat.le_trans (lineCount_le_length text) hlength)
    dsimp only at hread
    rw [hcheck] at hread
    rw [highlightFile_value hl hread, eq_of_beq hlexer]

/-- Two folders with a file `x` each, the second one with a file `y`, too. -/
def twoFolders : FileTree where
  entries :=
    [(["a"], .folder), (["a", "x"], .file "1".toUTF8), (["b"], .folder),
     (["b", "x"], .file "2".toUTF8), (["b", "y"], .file "3".toUTF8)]

/-- What a session knows when the first of these files is highlighted. -/
def firstTurn : SessionState where
  files := twoFolders
  current := some ⟨"a/x", 1⟩

theorem highlightFile_firstTurn : (plainText.highlightFile "a/x" firstTurn).value = .ok "1" := by
  have hlocate : (SourceReader.locate firstTurn.files "a/x").value =
      .ok (["a", "x"], "1".toUTF8) := rfl
  exact plainText_highlightFile (by decide +kernel) hlocate (fun _ => rfl) rfl (by decide)

theorem write_firstTurn : (firstTurn.files.write
    (outputPath "out" "a/x" plainText.format) "1".toUTF8).2 = .ok () := rfl

/-- Two inputs with different file names. -/
theorem runBatch_outputs_two :
    (∀ path ∈ ["a/x", "b/y"], (Path.fileName? path).isSome = true) ∧
    (plainText.runBatch ["a/x", "b/y"] (some "out") { files := twoFolders }).state.files.HasFile
      (outputPath "out" "a/x" .html) "1".toUTF8 := by
  have hnames : ∀ path ∈ ["a/x", "b/y"], (Path.fileName? path).isSome = true := by
    decide
  have hok := (process_of_written highlightFile_firstTurn write_firstTurn).1
  obtain ⟨-, -, hlast⟩ :=
    runBatch_outputs plainText "out" ["a/x", "b/y"] { files := twoFolders } hnames
  obtain ⟨text, htext, hfile⟩ := hlast [] "a/x" firstTurn _ rfl hok fun turn hturn hname => by
    obtain rfl := List.mem_singleton.1 hturn
    exact absurd hname (by decide)
  obtain rfl := Except.ok.inj (highlightFile_firstTurn.symm.trans htext)
  exact ⟨hnames, hfile⟩

/-- Two inputs with one file name: both are highlighted and written, and the output for the first
one is lost. -/
theorem runBatch_collides : ∃ (h : Highlighter) (s s₁ s₂ : SessionState),
    h.turns (some "out") 1 ["a/x", "b/x"] s = [("a/x", s₁), ("b/x", s₂)] ∧
    (h.highlightFile "a/x" s₁).value = .ok "1" ∧ (h.highlightFile "b/x" s₂).value = .ok "2" ∧
    (h.runBatch ["a/x", "b/x"] (some "out") s).value = ⟨2, 0⟩ ∧
    outputPath "out" "a/x" h.format = outputPath "out" "b/x" h.format ∧
    ¬ (h.runBatch ["a/x", "b/x"] (some "out") s).state.files.HasFile
      (outputPath "out" "a/x" h.format) "1".toUTF8 := by
  obtain ⟨hok, hfiles⟩ := process_of_written highlightFile_firstTurn write_firstTurn
  let s₂ : SessionState :=
    { (plainText.process (some "out") "a/x" firstTurn).state with current := some ⟨"b/x", 2⟩ }
  have hlocate : (SourceReader.locate s₂.files "b/x").value = .ok (["b", "x"], "2".toUTF8) :=
    (congrArg (fun t => (SourceReader.locate t "b/x").value) hfiles).trans rfl
  have htext : (plainText.highlightFile "b/x" s₂).value = .ok "2" :=
    plainText_highlightFile (by decide +kernel) hlocate (fun _ => rfl) rfl (by decide)
  have hwrite : (s₂.files.write (outputPath "out" "b/x" .html) "2".toUTF8).2 = .ok () :=
    (congrArg (fun t => (t.write (outputPath "out" "b/x" .html) "2".toUTF8).2) hfiles).trans rfl
  obtain ⟨hok', -⟩ := process_of_written htext hwrite
  have hturns : plainText.turns (some "out") 1 ["a/x", "b/x"] { files := twoFolders } =
      [("a/x", firstTurn)] ++ [("b/x", s₂)] := rfl
  refine ⟨plainText, { files := twoFolders }, firstTurn, s₂, hturns, highlightFile_firstTurn,
    htext, ?_, rfl, fun hfirst => ?_⟩
  · rw [runBatch_value, hturns, List.countP_append, List.countP_singleton, List.countP_singleton,
      hok, hok']
    rfl
  · obtain ⟨text, htext', hfile⟩ := hasFile_of_turns (b := {})
      (by decide : ∀ path ∈ ["a/x", "b/x"], _) hturns hok' (by simp)
    obtain rfl := Except.ok.inj (htext.symm.trans htext')
    exact absurd (hfirst.unique hfile) (by decide)

end Highlighter

end Highlighting
