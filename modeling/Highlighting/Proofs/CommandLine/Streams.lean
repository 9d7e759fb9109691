import Highlighting.CommandLine.Program
import Highlighting.Proofs.CommandLine.Outputs
import Highlighting.Proofs.Language.BuiltinLexers

/-!
# What appears on the output stream

Without a folder to write to, a command line that highlights prints the outputs for its files and
nothing else (`Program.printed_start`).  Events of the log go to the error stream when they are
written as records.  Otherwise those that are no errors appear on the output stream, whatever the
preferences say about the console; and there is always such an event, because the registry warns
that the engine's lexer takes the place of the one for C++.  So the output stream shows the outputs
alone exactly when events are written as records (`Program.onOutput_start`).
-/

namespace Highlighting

open Session Effect

/-! ### The warning of the registry -/

namespace Registry

section RegisterBuilt

variable {r : Registry} {built : Logged (Except ExtensionError Lexer)}
  {rest : List (Logged (Except ExtensionError Lexer))} {l : Lexer} {e : Event}
  (h : built.value = .ok l)

include h

theorem registerBuilt_events : (registerBuilt r (built :: rest)).events =
    built.events ++ ((r.register l).events ++ (registerBuilt (r.insert l) rest).events) := by
  rw [registerBuilt, Logged.events_bind, h]
  rfl

theorem mem_registerBuilt_first (he : e ∈ (r.register l).events) :
    e ∈ (registerBuilt r (built :: rest)).events := by
  rw [registerBuilt_events h]
  exact List.mem_append_right _ (List.mem_append_left _ he)

theorem mem_registerBuilt_later (he : e ∈ (registerBuilt (r.insert l) rest).events) :
    e ∈ (registerBuilt r (built :: rest)).events := by
  rw [registerBuilt_events h]
  exact List.mem_append_right _ (List.mem_append_right _ he)

end RegisterBuilt

/-- A lexer that takes the place of another one is warned of. -/
theorem exists_warning_register {r : Registry} {l : Lexer} (h : (r.held? l.tag).isSome = true) :
    ∃ e ∈ (r.register l).events, e.level = .warning := by
  obtain ⟨old, hold⟩ := Option.isSome_iff_exists.1 h
  rw [register, hold]
  exact ⟨_, List.mem_append_left _ List.mem_cons_self, rfl⟩

theorem held?_insert (r : Registry) (l : Lexer) : ((r.insert l).held? l.tag).isSome = true := by
  rw [held?, insert, List.find?_isSome]
  exact ⟨l, List.mem_append_right _ List.mem_cons_self, beq_self_eq_true l.tag⟩

/-- The registry warns that the engine's lexer takes the place of the one for C++. -/
theorem exists_warning_defaults : ∃ e ∈ defaults.events, e.level = .warning := by
  obtain ⟨plain, c, cpp, engine, hplain, hc, hcpp, hengine, -, -, hcpp', hengine'⟩ :=
    exists_builtLexers
  have htag : engine.tag = cpp.tag := by
    rw [Lexer.tag, Lexer.tag, hcpp', hengine']
    rfl
  have hheld : ((((⟨[]⟩ : Registry).insert plain).insert c).insert cpp
      |>.held? engine.tag).isSome = true := by
    rw [htag]
    exact held?_insert _ _
  obtain ⟨e, he, hlevel⟩ := exists_warning_register hheld
  exact ⟨e, mem_registerBuilt_later (value_ofGrammar hplain) (mem_registerBuilt_later
    (value_ofGrammar hc) (mem_registerBuilt_later (value_ofGrammar hcpp)
      (mem_registerBuilt_first hengine he))), hlevel⟩

/-! ### Setting up is silent -/

theorem isSilent_withExtensionFiles (r : Registry) (paths : List String) :
    IsSilent (r.withExtensionFiles paths) := by
  induction paths generalizing r with
  | nil => exact isSilent_pure _
  | cons path paths ih =>
    refine isSilent_files.bind fun t => (isSilent_logging _).bind fun x => ?_
    cases x with
    | error e => exact isSilent_pure _
    | ok x =>
      refine (isSilent_logging _).bind fun l => ?_
      cases l with
      | error e => exact isSilent_pure _
      | ok l => exact (isSilent_note _ _ _).bind fun _ => (isSilent_logging _).bind fun _ => ih _

theorem isSilent_ofExtensionFiles (paths : List String) : IsSilent (ofExtensionFiles paths) := by
  refine (isSilent_logging _).bind fun r => ?_
  cases r with
  | error e => exact isSilent_pure _
  | ok r => exact isSilent_withExtensionFiles r paths

theorem isSilent_claimedBelow (r : Registry) (folder : String) (places : List Place) :
    IsSilent (r.claimedBelow folder places) := by
  induction places with
  | nil => exact isSilent_pure _
  | cons p ps ih =>
    rw [claimedBelow]
    split
    · exact ih.bind fun _ => isSilent_pure _
    · exact (isSilent_note _ _ _).bind fun _ => ih

theorem isSilent_filesOf (r : Registry) (paths : List String) : IsSilent (r.filesOf paths) := by
  induction paths with
  | nil => exact isSilent_pure _
  | cons path paths ih =>
    refine isSilent_files.bind fun t => ?_
    split
    · exact isSilent_pure _
    · exact ih.bind fun _ => isSilent_pure _
    · exact (isSilent_claimedBelow r _ _).bind fun _ => ih.bind fun _ => isSilent_pure _

end Registry

/-! ### What a batch prints -/

namespace Highlighter

variable {h : Highlighter}

/-- The outputs for files, without those that are not highlighted. -/
def outputs (h : Highlighter) (files : List String) (t : FileTree) : List String :=
  files.filterMap fun path => (h.highlightFile path { files := t }).value.toOption

theorem process_prints (h : Highlighter) (path : String) (s : SessionState) :
    (h.process none path s).state.files = s.files ∧
      printed (h.process none path s).effects = (h.outputs [path] s.files).map (· ++ "\n") := by
  have hsilent := h.isSilent_highlightFile path
  have hfiles := hsilent.files_eq s
  have hprinted := hsilent.printed_eq s
  rw [outputs, List.filterMap_cons, List.filterMap_nil,
    ← hsilent.value_eq s { files := s.files } rfl]
  cases hresult : h.highlightFile path s with
  | mk value state effects =>
    rw [hresult] at hfiles hprinted
    dsimp only at hfiles hprinted
    cases value with
    | error e =>
      simp only [process, bind_apply, hresult, pure_apply, printed_append, hprinted]
      exact ⟨hfiles, rfl⟩
    | ok text =>
      simp only [process, deliver, bind_apply, hresult, pure_apply, printed_append, hprinted]
      exact ⟨hfiles, rfl⟩

/-- Without a folder to write to, a batch prints the outputs for its files, each on lines of its
own. -/
theorem runFrom_prints (h : Highlighter) (id : Nat) (b : BatchSummary) (files : List String) :
    Prints (h.runFrom none id b files) fun t => (h.outputs files t).map (· ++ "\n") := by
  intro s
  induction files generalizing id b s with
  | nil => rfl
  | cons path paths ih =>
    let s₁ : SessionState := { s with current := some ⟨path, id⟩ }
    let s₂ : SessionState := { (h.process none path s₁).state with current := none }
    obtain ⟨hfiles, hprinted⟩ := h.process_prints path s₁
    have heffects : (h.runFrom none id b (path :: paths) s).effects =
        (h.process none path s₁).effects ++
          (h.runFrom none (id + 1) (b.add (h.fails none (path, s₁))) paths s₂).effects := by
      refine congrArg (· ++ _) ?_
      exact List.append_nil (h.process none path s₁).effects
    have hlater : s₂.files = s.files := hfiles
    rw [heffects, printed_append, hprinted, ih, hlater, ← List.map_append]
    refine congrArg (List.map (· ++ "\n")) ?_
    exact List.filterMap_append.symm

end Highlighter

/-! ### What a command line prints -/

namespace Program

variable {env : Environment} {args : Arguments}

/-- The outputs for the files that a command line highlights with a registry, in order. -/
def outputsWith (env : Environment) (args : Arguments) (t : FileTree) :
    Except ExtensionError Registry → List String
  | .error _ => []
  | .ok r =>
    match (r.filesOf args.inputs { files := t }).value with
    | .error _ => []
    | .ok files => (Highlighter.ofArguments r args env).outputs files t

/-- The outputs for the files that a command line highlights, in order. -/
def outputs (env : Environment) (args : Arguments) (t : FileTree) : List String :=
  outputsWith env args t (Registry.ofExtensionFiles args.extensions { files := t }).value

theorem highlightInputs_prints (hdir : args.outputDir = none) (h : Highlighter) :
    Prints (highlightInputs args h) fun t =>
      match (h.registry.filesOf args.inputs { files := t }).value with
      | .error _ => []
      | .ok files => (h.outputs files t).map (· ++ "\n") := by
  rw [highlightInputs]
  split
  · next hempty =>
    rw [List.isEmpty_iff.1 hempty]
    exact ((isSilent_complain _).bind fun _ => (isSilent_complain _).bind fun _ =>
      isSilent_pure _).prints
  · refine (Registry.isSilent_filesOf h.registry args.inputs).bind_prints (fun found t =>
      match found with
      | .error _ => []
      | .ok files => (h.outputs files t).map (· ++ "\n")) fun found => ?_
    cases found with
    | error e => exact ((isSilent_complain _).bind fun _ => isSilent_pure _).prints
    | ok files =>
      cases files with
      | nil => exact ((isSilent_note _ _ _).bind fun _ => isSilent_pure _).prints
      | cons path paths =>
        refine Prints.after_silent (fun _ => ?_) (isSilent_note _ _ _)
        rw [hdir]
        exact (h.runFrom_prints _ _ _).bind_silent fun summary =>
          (isSilent_log _).bind fun _ => isSilent_pure _

/-- Without a folder to write to, a command line that highlights prints the outputs for its files,
each on lines of its own. -/
theorem run_prints (hlist : args.listLexers = false) (hcss : args.format ≠ .css)
    (hdir : args.outputDir = none) :
    Prints (run env args) fun t => (outputs env args t).map (· ++ "\n") := by
  rw [run]
  refine Prints.after_silent (fun _ => ?_) (isSilent_forM (fun _ => isSilent_complain _) _)
  refine Prints.after_silent (fun _ => ?_) (isSilent_modify fun _ => rfl)
  refine Prints.after_silent (fun _ => ?_) (isSilent_logUnmarked _)
  refine Prints.after_silent (fun _ => ?_) (isSilent_note _ _ _)
  refine Prints.after_silent (fun _ => ?_) (isSilent_log _)
  refine (Registry.isSilent_ofExtensionFiles args.extensions).bind_prints
    (fun registered t => (outputsWith env args t registered).map (· ++ "\n")) fun registered => ?_
  cases registered with
  | error e => exact ((isSilent_complain _).bind fun _ => isSilent_pure _).prints
  | ok r =>
    rw [hlist]
    dsimp only
    rw [if_neg Bool.false_ne_true, if_neg hcss]
    intro s
    rw [highlightInputs_prints hdir]
    simp only [outputsWith, Highlighter.ofArguments]
    cases (r.filesOf args.inputs { files := s.files }).value with
    | error e => rfl
    | ok files => rfl

/-! ### Where events appear -/

/-- The text that is shown on the output stream, if it is there that it is shown. -/
def Shown.out? : Shown → Option String
  | .out text => some text
  | .err _ => none

/-- The texts that appear on the output stream for effects, in order. -/
def onOutput (x : Settings) (effects : List Effect) : List String :=
  (effects.flatMap (shownFor x)).filterMap Shown.out?

theorem onOutput_append (x : Settings) (es es' : List Effect) :
    onOutput x (es ++ es') = onOutput x es ++ onOutput x es' := by
  simp [onOutput]

theorem filterMap_out?_err (ls : List String) :
    (ls.map fun l => Shown.err (l ++ "\n")).filterMap Shown.out? = [] := by
  simp [Shown.out?, List.filterMap_eq_nil_iff]

variable {p : LoggingPreferences} {notes : NoteFilter} {e : Event}

/-- An event that is written as a record does not appear on the output stream. -/
theorem onOutput_event_of_structured (h : p.structured = true) (e : Event) :
    onOutput ⟨service p, notes⟩ [.event e] = [] := by
  rw [onOutput, List.flatMap_singleton, shownFor, service, if_pos h, LogService.log]
  by_cases hshown : e.level.isShown p.level = true
  · simp [LogService.shows, Sink.take, hshown, Shown.out?]
  · simp [LogService.shows, hshown]

/-- A warning that is not written as a record appears on the output stream. -/
theorem onOutput_warning (h : p.structured = false) (he : e.level = .warning) :
    onOutput ⟨service p, notes⟩ [.event e] = [e.format ++ "\n"] := by
  have hshown := p.warnings_shown
  rw [onOutput, List.flatMap_singleton, shownFor, service, h, LogService.log]
  simp [LogService.shows, Sink.take, Event.isError, he, hshown, Shown.out?]

theorem onOutput_single_of_structured (h : p.structured = true) (e : Effect) :
    onOutput ⟨service p, notes⟩ [e] = printed [e] := by
  cases e with
  | output text => rfl
  | complaint line => rfl
  | event e => exact onOutput_event_of_structured h e
  | note level source message =>
    rw [onOutput, List.flatMap_singleton, shownFor]
    split
    · exact filterMap_out?_err _
    · rfl

/-- When events are written as records, nothing of them appears on the output stream. -/
theorem onOutput_of_structured (h : p.structured = true) (effects : List Effect) :
    onOutput ⟨service p, notes⟩ effects = printed effects := by
  induction effects with
  | nil => rfl
  | cons e effects ih =>
    rw [← List.singleton_append, onOutput_append, printed_append, ih, onOutput_single_of_structured h]

/-- What is printed appears on the output stream. -/
theorem printed_sublist_onOutput (x : Settings) (effects : List Effect) :
    List.Sublist (printed effects) (onOutput x effects) := by
  induction effects with
  | nil => exact .slnil
  | cons e effects ih =>
    rw [← List.singleton_append, onOutput_append, printed_append]
    refine .append ?_ ih
    cases e with
    | output text => exact .refl _
    | complaint line => exact List.nil_sublist _
    | event e => exact List.nil_sublist _
    | note level source message => exact List.nil_sublist _

/-- With a warning that is not written as a record, there is more on the output stream than what
is printed. -/
theorem onOutput_ne_printed (h : p.structured = false) {effects : List Effect}
    (hmem : .event e ∈ effects) (he : e.level = .warning) :
    onOutput ⟨service p, notes⟩ effects ≠ printed effects := by
  obtain ⟨before, after, rfl⟩ := List.append_of_mem hmem
  intro heq
  have hbefore := (printed_sublist_onOutput ⟨service p, notes⟩ before).length_le
  have hafter := (printed_sublist_onOutput ⟨service p, notes⟩ after).length_le
  have hlength := congrArg List.length heq
  rw [← List.singleton_append, onOutput_append, onOutput_append, onOutput_warning h he, printed_append,
    printed_append] at hlength
  have hevent : printed [.event e] = [] := rfl
  simp only [hevent, List.length_append, List.length_singleton, List.length_nil] at hlength
  omega

/-! ### The warning of every run -/

/-- Work logs a warning, whatever the session knows. -/
def Warns {α : Type} (x : Session α) : Prop :=
  ∀ s, ∃ e, .event e ∈ (x s).effects ∧ e.level = .warning

section Warns

variable {α β : Type} {x : Session α} {f : α → Session β}

theorem Warns.bind (h : Warns x) : Warns (x >>= f) := by
  intro s
  obtain ⟨e, he, hlevel⟩ := h s
  exact ⟨e, List.mem_append_left _ he, hlevel⟩

theorem Warns.after (h : ∀ a, Warns (f a)) : Warns (x >>= f) := by
  intro s
  obtain ⟨e, he, hlevel⟩ := h _ _
  exact ⟨e, List.mem_append_right _ he, hlevel⟩

end Warns

theorem level_marked (s : SessionState) (e : Event) : (marked s e).level = e.level := by
  rw [marked]
  split
  · split <;> rfl
  · rfl

theorem warns_ofExtensionFiles (paths : List String) :
    Warns (Registry.ofExtensionFiles paths) := by
  refine Warns.bind fun s => ?_
  obtain ⟨e, he, hlevel⟩ := Registry.exists_warning_defaults
  exact ⟨marked s e, List.mem_map.2 ⟨e, he, rfl⟩, (level_marked s e).trans hlevel⟩

theorem warns_run (env : Environment) (args : Arguments) : Warns (run env args) := by
  rw [run]
  exact .after fun _ => .after fun _ => .after fun _ => .after fun _ => .after fun _ =>
    (warns_ofExtensionFiles args.extensions).bind

/-- Without a folder to write to, a command line that highlights prints the outputs for its files,
and these appear on the output stream.  They are all that appears there exactly when events are
written as records; whether the console is enabled changes nothing. -/
theorem onOutput_start {line : List String} (hline : Arguments.parse line = .ok args)
    (hlist : args.listLexers = false) (hcss : args.format ≠ .css) (hdir : args.outputDir = none)
    (env : Environment) (s : SessionState) :
    List.Sublist ((outputs env args s.files).map (· ++ "\n"))
      (onOutput (settings env line) (start env line s).effects) ∧
    (onOutput (settings env line) (start env line s).effects =
        (outputs env args s.files).map (· ++ "\n") ↔
      (args.logging env).structured = true) := by
  have hstart : start env line = run env args := by
    rw [start, hline]
  have hsettings : settings env line =
      ⟨service (args.logging env), (noteFilter env args).1⟩ := by
    rw [settings, hline]
    rfl
  have hprinted : printed (run env args s).effects = (outputs env args s.files).map (· ++ "\n") :=
    run_prints hlist hcss hdir s
  rw [hstart, hsettings, ← hprinted]
  refine ⟨printed_sublist_onOutput _ _, fun heq => ?_, fun h => onOutput_of_structured h _⟩
  obtain ⟨e, he, hlevel⟩ := warns_run env args s
  by_contra hnot
  exact onOutput_ne_printed (Bool.eq_false_iff.2 hnot) he hlevel heq

/-- A file is highlighted with events written as records. -/
theorem onOutput_start_records : ∃ args, Arguments.parse ["x.c"] = .ok args ∧
    args.listLexers = false ∧ args.format ≠ .css ∧ args.outputDir = none ∧
    ∀ s, onOutput (settings [("HIGHLIGHT_LOGGING_USE_STRUCTURED", "true")] ["x.c"])
        (start [("HIGHLIGHT_LOGGING_USE_STRUCTURED", "true")] ["x.c"] s).effects =
      (outputs [("HIGHLIGHT_LOGGING_USE_STRUCTURED", "true")] args s.files).map (· ++ "\n") := by
  refine ⟨{ inputs := ["x.c"] }, rfl, rfl, by decide, rfl, fun s => ?_⟩
  exact (onOutput_start rfl rfl (by decide) rfl _ s).2.2 (by decide)

/-- A file is highlighted under the default preferences, under which the console is not enabled:
events appear on the output stream. -/
theorem onOutput_start_lines : ∃ args, Arguments.parse ["x.c"] = .ok args ∧
    args.listLexers = false ∧ args.format ≠ .css ∧ args.outputDir = none ∧
    (args.logging []).console = false ∧
    ∀ s, onOutput (settings [] ["x.c"]) (start [] ["x.c"] s).effects ≠
      (outputs [] args s.files).map (· ++ "\n") := by
  refine ⟨{ inputs := ["x.c"] }, rfl, rfl, by decide, rfl, by decide, fun s heq => ?_⟩
  obtain ⟨e, he, hlevel⟩ := warns_run [] { inputs := ["x.c"] } s
  have hprinted : printed (run [] { inputs := ["x.c"] } s).effects =
      (outputs [] { inputs := ["x.c"] } s.files).map (· ++ "\n") :=
    run_prints rfl (by decide) rfl s
  exact onOutput_ne_printed (by decide) he hlevel (heq.trans hprinted.symm)

end Program

end Highlighting
