import Highlighting.Files.Tree
import Highlighting.Log.Logged

/-!
# Sessions

A session works on a tree of files and lets others see what it does: texts for the output stream,
lines for the error stream, events for the log and notes for those who follow it.  While it works
on one file of several, events carry the path of that file and its number.

`Session.withFile` marks the events of one piece of work; after it no file is being worked on.
-/

namespace Highlighting

/-- The file being worked on and its number, counted from one. -/
structure FileContext where
  path : String
  id : Nat
deriving DecidableEq, Inhabited

/-- Something that a session lets others see. -/
inductive Effect where
  /-- a text for the output stream -/
  | output (text : String)
  /-- a line for the error stream -/
  | complaint (line : String)
  /-- an event for the log -/
  | event (e : Event)
  /-- a note of a level, from the part of the program that has a name -/
  | note (level : Level) (source message : String)
deriving DecidableEq, Inhabited

/-- What a session knows. -/
structure SessionState where
  files : FileTree := {}
  /-- the file being worked on -/
  current : Option FileContext := none
  /-- whether events carry the file being worked on -/
  marksFiles : Bool := true

/-- A result with the state that it leaves and what was seen on the way, in order. -/
structure Outcome (α : Type) where
  value : α
  state : SessionState
  effects : List Effect := []

/-- Work within a session. -/
def Session (α : Type) : Type := SessionState → Outcome α

namespace Session

variable {α β : Type}

instance : Monad Session where
  pure a := fun s => ⟨a, s, []⟩
  bind x f := fun s =>
    let y := x s
    let z := f y.value y.state
    ⟨z.value, z.state, y.effects ++ z.effects⟩

/-- Lets one effect be seen. -/
def reveal (e : Effect) : Session Unit := fun s => ⟨(), s, [e]⟩

/-- The state of the session. -/
def state : Session SessionState := fun s => ⟨s, s, []⟩

/-- Changes the state of the session. -/
def modify (f : SessionState → SessionState) : Session Unit := fun s => ⟨(), f s, []⟩

/-- The files of the session. -/
def files : Session FileTree := fun s => ⟨s.files, s, []⟩

/-- Puts a text on the output stream. -/
def output (text : String) : Session Unit := reveal (.output text)

/-- Puts a line on the error stream. -/
def complain (line : String) : Session Unit := reveal (.complaint line)

/-- Leaves a note. -/
def note (level : Level) (source message : String) : Session Unit :=
  reveal (.note level source message)

/-- An event as it is logged: with a message that is not too long, and with the file being worked
on. -/
def marked (s : SessionState) (e : Event) : Event :=
  let e := { e with message := truncateMessage e.message }
  match s.current with
  | some f =>
    if s.marksFiles then (e.withFilePath f.path).withContext "file_id" (toString f.id) else e
  | none => e

/-- Logs an event. -/
def log (e : Event) : Session Unit := fun s => ⟨(), s, [.event (marked s e)]⟩

/-- Does work that reports events, and logs them. -/
def logging (x : Logged α) : Session α :=
  fun s => ⟨x.value, s, x.events.map fun e => .event (marked s e)⟩

/-- Logs an event as it is, whatever file is being worked on. -/
def logUnmarked (e : Event) : Session Unit := reveal (.event e)

/-- Starts to work on a file, or on none. -/
def setFile (f : Option FileContext) : Session Unit := modify fun s => { s with current := f }

/-- Writes a file. -/
def write (path contents : String) : Session (Except FileTree.WriteFailure Unit) := fun s =>
  let (t, r) := s.files.write path contents.toUTF8
  ⟨r, { s with files := t }, []⟩

/-- Does work, and gives what was seen on the way along with its result. -/
def observing (x : Session α) : Session (α × List Effect) := fun s =>
  let r := x s
  ⟨(r.value, r.effects), r.state, r.effects⟩

/-- Does work on a file.  Afterwards no file is being worked on. -/
def withFile (f : FileContext) (x : Session α) : Session α := do
  setFile (some f)
  let a ← x
  setFile none
  pure a

@[simp] theorem bind_apply (x : Session α) (f : α → Session β) (s : SessionState) :
    (x >>= f) s =
      ⟨(f (x s).value (x s).state).value, (f (x s).value (x s).state).state,
        (x s).effects ++ (f (x s).value (x s).state).effects⟩ := rfl

@[simp] theorem pure_apply (a : α) (s : SessionState) : (pure a : Session α) s = ⟨a, s, []⟩ := rfl

theorem current_withFile (f : FileContext) (x : Session α) (s : SessionState) :
    (withFile f x s).state.current = none := rfl

end Session

end Highlighting
