import Highlighting.Session

/-!
# What sessions print and log

`Effect.printed` is what appears on the output stream apart from the log.  Work is silent if it
prints nothing, leaves the files as they are and has a value that is up to the files alone
(`Session.IsSilent`); silent steps make silent work (`Session.IsSilent.bind`).

Work that leaves the session as it is and logs no event without the file that is being worked on
(`Session.IsMarked`) consists of such steps, too.  Its events name this file and its number
(`Session.IsMarked.names_file`).

Work on a file may have work on another file within it.  The file of the outer work does not come
back behind the inner work (`Session.current_withFile_eq_iff`), and what the outer work logs there
goes without a file (`Session.effects_withFile_withFile`).
-/

namespace Highlighting

namespace Context

theorem get?_set_self (c : Context) (key value : String) :
    (c.set key value).get? key = some value := by
  induction c with
  | nil => simp [set, get?]
  | cons e c ih =>
    rw [set]
    split
    · simp [get?]
    · split
      · simp [get?]
      · next hkey =>
        have hne : e.1 ≠ key := fun heq => hkey (by simp [heq])
        simpa [get?, hne] using ih

theorem get?_set_of_ne {key key' : String} (h : key ≠ key') (c : Context) (value : String) :
    (c.set key value).get? key' = c.get? key' := by
  induction c with
  | nil => simp [set, get?, h]
  | cons e c ih =>
    rw [set]
    split
    · simp [get?, h]
    · split
      · next hkey =>
        have hne : e.1 ≠ key' := fun heq => h ((beq_iff_eq.1 hkey).trans heq)
        simp [get?, h, hne]
      · rw [get?, get?] at ih
        rw [get?, get?, List.find?_cons, List.find?_cons]
        split
        · rfl
        · exact ih

end Context

namespace Effect

/-- The text that an effect puts on the output stream. -/
def output? : Effect → Option String
  | output text => some text
  | _ => none

/-- The texts that effects put on the output stream, in order. -/
def printed (effects : List Effect) : List String := effects.filterMap output?

@[simp] theorem printed_nil : printed [] = [] := rfl

@[simp] theorem printed_append (es es' : List Effect) :
    printed (es ++ es') = printed es ++ printed es' := List.filterMap_append

theorem printed_events (es : List Event) (f : Event → Event) :
    printed (es.map fun e => .event (f e)) = [] := by
  simp [printed, output?, List.filterMap_eq_nil_iff]

end Effect

namespace Session

open Effect

variable {α β : Type} {x : Session α} {f : α → Session β}

theorem value_bind_of {s : SessionState} {a : α} (h : (x s).value = a) (f : α → Session β) :
    ((x >>= f) s).value = (f a (x s).state).value := by
  rw [bind_apply, h]

theorem value_logging_bind_of {x : Logged α} {a : α} (h : x.value = a) (f : α → Session β)
    (s : SessionState) : ((logging x >>= f) s).value = (f a s).value :=
  value_bind_of (x := logging x) h f

/-- Work that prints nothing, leaves the files as they are and has a value that is up to the files
alone. -/
structure IsSilent (x : Session α) : Prop where
  files_eq : ∀ s, (x s).state.files = s.files
  printed_eq : ∀ s, printed (x s).effects = []
  value_eq : ∀ s s', s.files = s'.files → (x s).value = (x s').value

theorem isSilent_pure (a : α) : IsSilent (pure a : Session α) :=
  ⟨fun _ => rfl, fun _ => rfl, fun _ _ _ => rfl⟩

theorem IsSilent.bind (hx : IsSilent x) (hf : ∀ a, IsSilent (f a)) : IsSilent (x >>= f) := by
  refine ⟨fun s => ?_, fun s => ?_, fun s s' hs => ?_⟩
  · rw [bind_apply]
    exact ((hf _).files_eq _).trans (hx.files_eq s)
  · rw [bind_apply, printed_append, hx.printed_eq, (hf _).printed_eq, List.append_nil]
  · rw [bind_apply, bind_apply, hx.value_eq s s' hs]
    exact (hf _).value_eq _ _ (by rw [hx.files_eq, hx.files_eq, hs])

theorem isSilent_files : IsSilent files :=
  ⟨fun _ => rfl, fun _ => rfl, fun _ _ h => h⟩

theorem isSilent_logging (l : Logged α) : IsSilent (logging l) :=
  ⟨fun _ => rfl, fun s => printed_events l.events (marked s), fun _ _ _ => rfl⟩

theorem isSilent_log (e : Event) : IsSilent (log e) :=
  ⟨fun _ => rfl, fun _ => rfl, fun _ _ _ => rfl⟩

theorem isSilent_logUnmarked (e : Event) : IsSilent (logUnmarked e) :=
  ⟨fun _ => rfl, fun _ => rfl, fun _ _ _ => rfl⟩

theorem isSilent_note (level : Level) (source message : String) :
    IsSilent (note level source message) :=
  ⟨fun _ => rfl, fun _ => rfl, fun _ _ _ => rfl⟩

theorem isSilent_complain (line : String) : IsSilent (complain line) :=
  ⟨fun _ => rfl, fun _ => rfl, fun _ _ _ => rfl⟩

theorem isSilent_modify {g : SessionState → SessionState} (h : ∀ s, (g s).files = s.files) :
    IsSilent (modify g) :=
  ⟨h, fun _ => rfl, fun _ _ _ => rfl⟩

theorem isSilent_forM {γ : Type} {g : γ → Session Unit} (h : ∀ c, IsSilent (g c)) (cs : List γ) :
    IsSilent (cs.forM g) := by
  induction cs with
  | nil => exact isSilent_pure ()
  | cons c cs ih => exact (h c).bind fun _ => ih

/-- Work prints texts that are up to the files alone. -/
def Prints (x : Session α) (texts : FileTree → List String) : Prop :=
  ∀ s, printed (x s).effects = texts s.files

theorem IsSilent.prints (h : IsSilent x) : Prints x fun _ => [] := h.printed_eq

/-- After silent work, what is printed is up to its value. -/
theorem IsSilent.bind_prints (texts : α → FileTree → List String) (hx : IsSilent x)
    (hf : ∀ a, Prints (f a) (texts a)) :
    Prints (x >>= f) fun t => texts (x { files := t }).value t := by
  intro s
  rw [bind_apply, printed_append, hx.printed_eq, hf, hx.files_eq, List.nil_append,
    hx.value_eq s { files := s.files } rfl]

theorem Prints.after_silent {texts : FileTree → List String} (hf : ∀ a, Prints (f a) texts)
    (hx : IsSilent x) : Prints (x >>= f) texts := by
  intro s
  rw [bind_apply, printed_append, hx.printed_eq, hf, hx.files_eq, List.nil_append]

theorem Prints.bind_silent {texts : FileTree → List String} (hx : Prints x texts)
    (hf : ∀ a, IsSilent (f a)) : Prints (x >>= f) texts := by
  intro s
  rw [bind_apply, printed_append, hx, (hf _).printed_eq, List.append_nil]

/-! ### Events with the file that is being worked on -/

/-- Work that leaves the session as it is, and logs events with the file that is being worked on. -/
structure IsMarked (x : Session α) : Prop where
  state_eq : ∀ s, (x s).state = s
  event_eq : ∀ s e, .event e ∈ (x s).effects → ∃ e₀, e = marked s e₀

theorem isMarked_pure (a : α) : IsMarked (pure a : Session α) :=
  ⟨fun _ => rfl, fun _ _ he => absurd he List.not_mem_nil⟩

theorem IsMarked.bind (hx : IsMarked x) (hf : ∀ a, IsMarked (f a)) : IsMarked (x >>= f) := by
  refine ⟨fun s => ?_, fun s e he => ?_⟩
  · rw [bind_apply]
    exact ((hf _).state_eq _).trans (hx.state_eq s)
  · rw [bind_apply, List.mem_append, hx.state_eq s] at he
    rcases he with he | he
    · exact hx.event_eq s e he
    · exact (hf _).event_eq s e he

theorem isMarked_files : IsMarked files :=
  ⟨fun _ => rfl, fun _ _ he => absurd he List.not_mem_nil⟩

theorem isMarked_logging (l : Logged α) : IsMarked (logging l) := by
  refine ⟨fun _ => rfl, fun s e he => ?_⟩
  obtain ⟨e₀, -, heq⟩ := List.mem_map.1 he
  exact ⟨e₀, (Effect.event.inj heq).symm⟩

theorem isMarked_log (e : Event) : IsMarked (log e) :=
  ⟨fun _ => rfl, fun _ _ he => ⟨e, Effect.event.inj (List.mem_singleton.1 he)⟩⟩

/-- What is no event needs no mark. -/
theorem isMarked_reveal {effect : Effect} (h : ∀ e, effect ≠ .event e) : IsMarked (reveal effect) :=
  ⟨fun _ => rfl, fun _ e he => absurd (List.mem_singleton.1 he).symm (h e)⟩

theorem isMarked_note (level : Level) (source message : String) :
    IsMarked (note level source message) :=
  isMarked_reveal (by simp)

theorem isMarked_complain (line : String) : IsMarked (complain line) := isMarked_reveal (by simp)

theorem isMarked_output (text : String) : IsMarked (output text) := isMarked_reveal (by simp)

/-- An event names a file and its number. -/
def NamesFile (f : FileContext) (e : Event) : Prop :=
  e.context.get? "file_path" = some f.path ∧ e.context.get? "file_id" = some (toString f.id)

/-- An event that is marked in a session that marks files names the file that is being worked on. -/
theorem namesFile_marked {s : SessionState} {c : FileContext} (hs : s.current = some c)
    (hmarks : s.marksFiles = true) (e : Event) : NamesFile c (marked s e) := by
  rw [marked, hs]
  simp only [hmarks, if_true, NamesFile, Event.withContext, Event.withFilePath]
  refine ⟨?_, Context.get?_set_self ..⟩
  rw [Context.get?_set_of_ne (by decide), Context.get?_set_self]

theorem IsMarked.names_file (hx : IsMarked x) {s : SessionState} {c : FileContext}
    (hs : s.current = some c) (hmarks : s.marksFiles = true) {e : Event}
    (he : .event e ∈ (x s).effects) : NamesFile c e := by
  obtain ⟨e₀, rfl⟩ := hx.event_eq s e he
  exact namesFile_marked hs hmarks e₀

/-! ### Work within other work -/

/-- The file that was being worked on before is the one afterwards only if there was none. -/
theorem current_withFile_eq_iff (c : FileContext) (x : Session α) (s : SessionState) :
    (withFile c x s).state.current = s.current ↔ s.current = none := by
  rw [current_withFile]
  exact eq_comm

theorem effects_withFile (c : FileContext) (x : Session α) (s : SessionState) :
    (withFile c x s).effects = (x { s with current := some c }).effects :=
  List.append_nil _

/-- Events behind work on another file go without the file of the work that they belong to. -/
theorem effects_withFile_withFile (c c' : FileContext) (x : Session α) (y : α → Logged β)
    (s : SessionState) :
    (withFile c (withFile c' x >>= fun a => logging (y a)) s).effects =
      (x { s with current := some c' }).effects ++
        (y (x { s with current := some c' }).value).events.map
          fun e => .event { e with message := truncateMessage e.message } := by
  rw [effects_withFile, bind_apply, effects_withFile]
  rfl

end Session

end Highlighting
