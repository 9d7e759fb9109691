import Highlighting.Log.Event

/-!
# Results with events

Operations do not write logs: they return a value together with the events that it took to find
it.  `Logged` joins the events of successive operations in order; who runs the operations decides
where the events go.
-/

namespace Highlighting

/-- A value and the events that were reported on the way to it, in order. -/
structure Logged (α : Type) where
  value : α
  events : List Event := []
deriving Inhabited

namespace Logged

variable {α β : Type}

/-- Reports one event. -/
def report (e : Event) : Logged Unit := ⟨(), [e]⟩

instance : Monad Logged where
  pure a := ⟨a, []⟩
  bind x f :=
    let y := f x.value
    ⟨y.value, x.events ++ y.events⟩

@[simp] theorem value_pure (a : α) : (pure a : Logged α).value = a := rfl

@[simp] theorem events_pure (a : α) : (pure a : Logged α).events = [] := rfl

@[simp] theorem value_bind (x : Logged α) (f : α → Logged β) :
    (x >>= f).value = (f x.value).value := rfl

theorem value_bind_of {x : Logged α} {a : α} (h : x.value = a) (f : α → Logged β) :
    (x >>= f).value = (f a).value := by
  rw [value_bind, h]

@[simp] theorem events_bind (x : Logged α) (f : α → Logged β) :
    (x >>= f).events = x.events ++ (f x.value).events := rfl

end Logged

end Highlighting
