/-
  Results that come with their events.

  `Traced` is a result or an error together with what happened on the way to it; what happened before
  an error is kept.  Main statements: `result_bind` and `events_bind`, the result of a composition
  depends on the results of its parts alone, and its events are those of the parts in order.
-/
import GuardedGrammar.Journal.Event

namespace GuardedGrammar

/-- A result or an error, and the events on the way to it. -/
structure Traced (ε α : Type) where
  events : List Event
  result : Except ε α

namespace Traced

variable {ε α β : Type}

/-- A failure. -/
def fail (e : ε) : Traced ε α := ⟨[], .error e⟩

/-- An event. -/
def note (e : Event) : Traced ε Unit := ⟨[e], .ok ()⟩

/-- Something that is known already. -/
def ofExcept (r : Except ε α) : Traced ε α := ⟨[], r⟩

/-- First the one, then what follows from its result. -/
protected def bind (x : Traced ε α) (f : α → Traced ε β) : Traced ε β :=
  match x.result with
  | .error e => ⟨x.events, .error e⟩
  | .ok a => ⟨x.events ++ (f a).events, (f a).result⟩

instance : Monad (Traced ε) where
  pure a := ⟨[], .ok a⟩
  bind := Traced.bind

/-- The same with another kind of error. -/
def mapError {ε' : Type} (f : ε → ε') (x : Traced ε α) : Traced ε' α :=
  ⟨x.events, x.result.mapError f⟩

@[simp] theorem result_ofExcept (r : Except ε α) : (ofExcept r).result = r := rfl

@[simp] theorem result_pure (a : α) : (pure a : Traced ε α).result = .ok a := rfl

@[simp] theorem events_pure (a : α) : (pure a : Traced ε α).events = [] := rfl

/-- A result goes through to the next step. -/
@[simp] theorem result_bind (x : Traced ε α) (f : α → Traced ε β) :
    (x >>= f).result = x.result >>= fun a => (f a).result := by
  change (Traced.bind x f).result = _
  unfold Traced.bind
  cases x.result <;> rfl

/-- A composition succeeds when both of its parts do. -/
theorem result_bind_eq_ok_iff (x : Traced ε α) (f : α → Traced ε β) (b : β) :
    (x >>= f).result = .ok b ↔ ∃ a, x.result = .ok a ∧ (f a).result = .ok b := by
  rw [result_bind]
  cases x.result with
  | error e => simp [bind, Except.bind]
  | ok a => simp [bind, Except.bind]

/-- A composition fails when its first part does, or the part that follows from its result. -/
theorem result_bind_eq_error_iff (x : Traced ε α) (f : α → Traced ε β) (e : ε) :
    (x >>= f).result = .error e ↔
      x.result = .error e ∨ ∃ a, x.result = .ok a ∧ (f a).result = .error e := by
  rw [result_bind]
  cases x.result with
  | error e' => simp [bind, Except.bind]
  | ok a => simp [bind, Except.bind]

@[simp] theorem result_mapError_eq_ok_iff {ε' : Type} (f : ε → ε') (x : Traced ε α) (a : α) :
    (x.mapError f).result = .ok a ↔ x.result = .ok a := by
  obtain ⟨events, r⟩ := x
  cases r with
  | error e => exact ⟨fun h => (nomatch h), fun h => (nomatch h)⟩
  | ok b => exact ⟨fun h => by cases h; rfl, fun h => by cases h; rfl⟩

@[simp] theorem result_mapError_eq_error_iff {ε' : Type} (f : ε → ε') (x : Traced ε α) (e : ε') :
    (x.mapError f).result = .error e ↔ ∃ e', x.result = .error e' ∧ f e' = e := by
  obtain ⟨events, r⟩ := x
  cases r with
  | error e' =>
    constructor
    · intro h
      cases h
      exact ⟨e', rfl, rfl⟩
    · rintro ⟨_, h, rfl⟩
      cases h
      rfl
  | ok a => exact ⟨fun h => (nomatch h), fun ⟨_, h, _⟩ => (nomatch h)⟩

@[simp] theorem result_fail (e : ε) : (fail e : Traced ε α).result = .error e := rfl

/-- The events of both steps are reported, unless the first one fails. -/
theorem events_bind (x : Traced ε α) (f : α → Traced ε β) :
    (x >>= f).events = x.events ++ (match x.result with
      | .error _ => []
      | .ok a => (f a).events) := by
  change (Traced.bind x f).events = _
  unfold Traced.bind
  cases x.result <;> simp

end Traced

end GuardedGrammar
