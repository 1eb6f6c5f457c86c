/-
  Steps that change a state.

  A `Task` is a step that may change a state, report events and fail.  Unlike a transaction it is not
  undone by a failure: the state and the events of what was done before the failure remain.
-/
import GuardedGrammar.Journal.Event

namespace GuardedGrammar

/-- What a task leaves behind: the events, the state, and its result or error. -/
structure Completed (σ ε α : Type) where
  events : List Event
  state : σ
  result : Except ε α

/-- A step on a state that reports events and may fail. -/
def Task (σ ε α : Type) : Type := σ → Completed σ ε α

namespace Task

variable {σ ε α β : Type}

/-- Carries a task out. -/
def run (t : Task σ ε α) (s : σ) : Completed σ ε α := t s

/-- A failure, which leaves the state alone. -/
def fail (e : ε) : Task σ ε α := fun s => ⟨[], s, .error e⟩

/-- An event. -/
def note (e : Event) : Task σ ε Unit := fun s => ⟨[e], s, .ok ()⟩

/-- The state. -/
def get : Task σ ε σ := fun s => ⟨[], s, .ok s⟩

/-- Changes the state. -/
def modify (f : σ → σ) : Task σ ε Unit := fun s => ⟨[], f s, .ok ()⟩

/-- Something that is known already. -/
def ofExcept (r : Except ε α) : Task σ ε α := fun s => ⟨[], s, r⟩

/-- First the one, then what follows from its result, on the state that the first leaves. -/
protected def bind (t : Task σ ε α) (f : α → Task σ ε β) : Task σ ε β := fun s =>
  let first := t s
  match first.result with
  | .error e => ⟨first.events, first.state, .error e⟩
  | .ok a =>
    let second := f a first.state
    ⟨first.events ++ second.events, second.state, second.result⟩

instance : Monad (Task σ ε) where
  pure a := fun s => ⟨[], s, .ok a⟩
  bind := Task.bind

theorem run_pure (a : α) (s : σ) : (pure a : Task σ ε α).run s = ⟨[], s, .ok a⟩ := rfl

/-- The second of two tasks starts in the state that the first one leaves, unless that has
failed. -/
theorem run_bind (t : Task σ ε α) (f : α → Task σ ε β) (s : σ) :
    (t >>= f).run s =
      match (t.run s).result with
      | .error e => ⟨(t.run s).events, (t.run s).state, .error e⟩
      | .ok a =>
        ⟨(t.run s).events ++ ((f a).run (t.run s).state).events, ((f a).run (t.run s).state).state,
          ((f a).run (t.run s).state).result⟩ := rfl

/-- If the first succeeds, what follows is done on what it leaves. -/
theorem run_bind_of_ok {t : Task σ ε α} {s s' : σ} {events : List Event} {a : α}
    (h : t.run s = ⟨events, s', .ok a⟩) (f : α → Task σ ε β) :
    (t >>= f).run s =
      ⟨events ++ ((f a).run s').events, ((f a).run s').state, ((f a).run s').result⟩ := by
  rw [run_bind, h]

/-- A composition succeeds only if both of its parts do. -/
theorem exists_of_run_bind_eq_ok {t : Task σ ε α} {f : α → Task σ ε β} {s s'' : σ}
    {events : List Event} {b : β} (h : (t >>= f).run s = ⟨events, s'', .ok b⟩) :
    ∃ first s' a second, t.run s = ⟨first, s', .ok a⟩ ∧ (f a).run s' = ⟨second, s'', .ok b⟩ ∧
      events = first ++ second := by
  rw [run_bind] at h
  cases ht : t.run s with
  | mk first s' result =>
    rw [ht] at h
    cases result with
    | error e => exact nomatch congrArg Completed.result h
    | ok a =>
      obtain ⟨hevents, hstate, hresult⟩ := Completed.mk.inj h
      refine ⟨first, s', a, ((f a).run s').events, rfl, ?_, hevents.symm⟩
      rw [← hstate, ← hresult]

/-! A step that only looks at the state, notes an event or changes the state, and what comes behind
it. -/

theorem run_get_bind (f : σ → Task σ ε β) (s : σ) : (get >>= f).run s = (f s).run s := rfl

theorem run_note_bind (e : Event) (f : Unit → Task σ ε β) (s : σ) :
    (note e >>= f).run s =
      ⟨e :: ((f ()).run s).events, ((f ()).run s).state, ((f ()).run s).result⟩ := rfl

theorem run_modify_bind (h : σ → σ) (f : Unit → Task σ ε β) (s : σ) :
    (modify h >>= f).run s = (f ()).run (h s) := rfl

end Task

end GuardedGrammar
