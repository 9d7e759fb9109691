import Highlighting.Proofs.CommandLine.Streams

/-!
# A batch highlights file by file

Without a folder to write to, a batch does for each of its files what it would do for this file
alone: a file that fails takes nothing away from the others and adds nothing to them, and no event
is logged for one file that names another one (`Highlighter.runBatch_fileByFile`).  The reason is
that highlighting a file leaves the session as it is.
-/

namespace Highlighting

open Session Effect

/-- The files of a batch with their numbers, the first of which is given. -/
def numberedFrom (id : Nat) (files : List String) : List FileContext :=
  files.mapIdx fun i path => ⟨path, id + i⟩

theorem numberedFrom_cons (id : Nat) (path : String) (paths : List String) :
    numberedFrom id (path :: paths) = ⟨path, id⟩ :: numberedFrom (id + 1) paths := by
  rw [numberedFrom, numberedFrom, List.mapIdx_cons, Nat.add_zero]
  simp only [Nat.add_assoc, Nat.add_comm 1]

theorem map_path_numberedFrom (id : Nat) (files : List String) :
    (numberedFrom id files).map FileContext.path = files := by
  induction files generalizing id with
  | nil => rfl
  | cons path paths ih => rw [numberedFrom_cons, List.map_cons, ih]

/-- What a session knows while it works on a file. -/
def SessionState.onFile (s : SessionState) (f : FileContext) : SessionState :=
  { s with current := some f }

namespace Highlighter

variable {h : Highlighter} {s : SessionState}

/-! ### One file -/

theorem isMarked_highlightFile (h : Highlighter) (path : String) :
    IsMarked (h.highlightFile path) := by
  refine (isMarked_logging _).bind fun selected => ?_
  cases selected with
  | error e => exact isMarked_pure _
  | ok l =>
    refine isMarked_files.bind fun t => (isMarked_logging _).bind fun file => ?_
    cases file with
    | error e => exact isMarked_pure _
    | ok f =>
      exact (isMarked_logging _).bind fun _ => (isMarked_note _ _ _).bind fun _ => isMarked_pure _

/-- Without a folder to write to, one file of a batch leaves the session as it is, and its events
are logged with the file that is being worked on. -/
theorem isMarked_process (h : Highlighter) (path : String) : IsMarked (h.process none path) := by
  have hfailed (line : String) (e : Event) :
      IsMarked (do Session.complain line; Session.log e; pure true) :=
    (isMarked_complain line).bind fun _ => (isMarked_log e).bind fun _ => isMarked_pure true
  refine (h.isMarked_highlightFile path).bind fun highlighted => ?_
  cases highlighted with
  | error e => exact hfailed _ _
  | ok text =>
    have hdelivered : IsMarked (h.deliver none path text) :=
      (isMarked_output _).bind fun _ => isMarked_pure _
    refine hdelivered.bind fun result => ?_
    cases result with
    | error e => exact hfailed _ _
    | ok _ => exact isMarked_pure false

/-- Without a folder to write to, a file of a batch fails when it is not highlighted, and only
then. -/
theorem process_value (h : Highlighter) (path : String) (s : SessionState) :
    (h.process none path s).value =
      (h.highlightFile path { files := s.files }).value.toOption.isNone := by
  rw [← (h.isSilent_highlightFile path).value_eq s { files := s.files } rfl]
  cases hresult : h.highlightFile path s with
  | mk value state effects =>
    cases value with
    | error e =>
      simp only [process, bind_apply, hresult, pure_apply]
      rfl
    | ok text =>
      simp only [process, deliver, bind_apply, hresult, pure_apply]
      rfl

/-! ### The turns of a batch -/

/-- What a batch shows is what its turns show. -/
theorem runFrom_effects (h : Highlighter) (outputDir : Option String) (id : Nat) (b : BatchSummary)
    (files : List String) (s : SessionState) :
    (h.runFrom outputDir id b files s).effects =
      (h.turns outputDir id files s).flatMap fun turn =>
        (h.process outputDir turn.1 turn.2).effects := by
  induction files generalizing id b s with
  | nil => rfl
  | cons path paths ih =>
    rw [turns, List.flatMap_cons, ← ih]
    refine congrArg (· ++ _) ?_
    exact List.append_nil _

/-- Without a folder to write to, each file has its turn in the session that the batch began in. -/
theorem turns_eq_map (h : Highlighter) (id : Nat) (files : List String) (s : SessionState) :
    h.turns none id files s = (numberedFrom id files).map fun f => (f.path, s.onFile f) := by
  induction files generalizing id s with
  | nil => rfl
  | cons path paths ih =>
    rw [turns, (h.isMarked_process path).state_eq, ih, numberedFrom_cons, List.map_cons]
    rfl

/-- The turns that fail are those of the files that are not highlighted. -/
theorem countP_fails (h : Highlighter) (id : Nat) (files : List String) (s : SessionState) :
    (h.turns none id files s).countP (h.fails none) =
      files.countP fun path =>
        (h.highlightFile path { files := s.files }).value.toOption.isNone := by
  have hfails (f : FileContext) : h.fails none (f.path, s.onFile f) =
      (h.highlightFile f.path { files := s.files }).value.toOption.isNone :=
    h.process_value f.path _
  rw [turns_eq_map, List.countP_map]
  simp only [Function.comp_def, hfails]
  conv_rhs => rw [← map_path_numberedFrom id files, List.countP_map]
  rfl

theorem runFrom_state (h : Highlighter) (id : Nat) (b : BatchSummary) (files : List String)
    (s : SessionState) :
    (h.runFrom none id b files s).state =
      { s with current := if files.isEmpty then s.current else none } := by
  induction files generalizing id b s with
  | nil => rfl
  | cons path paths ih =>
    obtain ⟨s₁, rfl, s₂, hs₂, -, -, hstate⟩ := h.runFrom_cons none id b path paths s
    rw [(h.isMarked_process path).state_eq] at hs₂
    rw [hstate, ih, hs₂]
    simp

/-! ### A batch -/

/-- Without a folder to write to, what a batch shows is what its files show one after the other,
each as if it were alone: the output if the file is highlighted, and events that name this file and
its number if files are marked.  So the batch prints the outputs for the files that are highlighted,
counts those that are not, and leaves no file that is being worked on. -/
theorem runBatch_fileByFile (h : Highlighter) (files : List String) (s : SessionState) :
    (h.runBatch files none s).effects =
      ((numberedFrom 1 files).flatMap fun f => (h.process none f.path (s.onFile f)).effects) ∧
    (∀ f : FileContext,
      (h.process none f.path (s.onFile f)).value =
        (h.highlightFile f.path { files := s.files }).value.toOption.isNone ∧
      printed (h.process none f.path (s.onFile f)).effects =
        (h.outputs [f.path] s.files).map (· ++ "\n") ∧
      (s.marksFiles = true →
        ∀ e, .event e ∈ (h.process none f.path (s.onFile f)).effects → NamesFile f e)) ∧
    printed (h.runBatch files none s).effects = (h.outputs files s.files).map (· ++ "\n") ∧
    (h.runBatch files none s).value =
      ⟨files.length, files.countP fun path =>
        (h.highlightFile path { files := s.files }).value.toOption.isNone⟩ ∧
    (h.runBatch files none s).state =
      { s with current := if files.isEmpty then s.current else none } := by
  refine ⟨?effects, fun f => ⟨h.process_value f.path _, (h.process_prints f.path _).2, ?events⟩,
    h.runFrom_prints 1 {} files s, ?value, h.runFrom_state 1 {} files s⟩
  case effects =>
    rw [runBatch, runFrom_effects, turns_eq_map, List.flatMap_map]
  case events =>
    intro hmarks e he
    exact (h.isMarked_process f.path).names_file (s := s.onFile f) rfl hmarks he
  case value =>
    rw [runBatch_value, h.countP_fails]

end Highlighter

end Highlighting
