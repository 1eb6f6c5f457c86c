/-
  What guards and actions can touch.

  A guard or an action works in the scope of a rule.  It may change attributes, take registers and
  write; it never changes the rule or what symbols lie where on the stack, reports nothing but what it
  writes and which registers it takes, and blames no table.  Nor does it matter to it in which states
  the entries are (`Confined.unplaced`), so what it does can be told from the attributes alone.  All
  this is closed under doing one thing after the other, and so it holds of every guard
  (`confined_test`) and of every action (`confined_act`).

  A guard changes nothing but the register counter, and if it takes no register it changes nothing at
  all (`state_test`).
-/
import GuardedGrammar.Proofs.Composition

namespace GuardedGrammar

/-! ## Reductions among the events -/

/-- The rule whose reduction an event reports. -/
def Event.reducedRule? : Event → Option Rule
  | .reduced _ rule => some rule
  | _ => none

/-- The rules that have been reduced, in order. -/
def reducedRules (events : List Event) : List Rule := events.filterMap Event.reducedRule?

theorem reducedRules_append (a b : List Event) :
    reducedRules (a ++ b) = reducedRules a ++ reducedRules b :=
  List.filterMap_append

/-- An event of a guard or an action: a line that is written, or a register that is given out. -/
def Event.isLocal : Event → Bool
  | .emitted _ => true
  | .registerIssued _ => true
  | _ => false

/-- No reduction happens in the scope of a rule. -/
theorem Event.reducedRule?_of_isLocal {e : Event} (h : e.isLocal = true) :
    e.reducedRule? = none := by
  cases e with
  | reduced => exact nomatch h
  | _ => rfl

/-! ## Entries and where they are -/

/-- The state and the symbol of an entry, without its attributes. -/
def StackEntry.place (e : StackEntry) : Nat × String := (e.state, e.symbol)

/-- An entry that is in no particular state. -/
def StackEntry.unplaced (e : StackEntry) : StackEntry := { e with state := 0 }

namespace Scope

/-- A scope whose entries are in no particular state. -/
def unplaced (s : Scope) : Scope := { s with entries := s.entries.map StackEntry.unplaced }

/-- Attributes do not depend on where an entry is. -/
theorem attributes_unplaced (s : Scope) (slot : Slot) :
    s.unplaced.attributes slot = s.attributes slot := by
  cases slot with
  | lhs => rfl
  | rhs k =>
    show (((s.entries.map StackEntry.unplaced)[k]?).map (·.attributes)).getD ∅ = _
    rw [List.getElem?_map, Option.map_map]
    rfl

/-- Neither does what is read. -/
theorem read_unplaced (s : Scope) (ref : AttributeRef) : s.unplaced.read ref = s.read ref := by
  have hrule : s.unplaced.rule = s.rule := rfl
  unfold read
  rw [hrule]
  cases s.rule.slot? ref.target with
  | none => rfl
  | some slot =>
    dsimp only
    rw [attributes_unplaced]

/-- Attributes are given to an entry wherever it is. -/
theorem assign_unplaced (s : Scope) (slot : Slot) (name value : String) :
    (s.assign slot name value).unplaced = s.unplaced.assign slot name value := by
  cases slot with
  | lhs => rfl
  | rhs k =>
    refine congrArg (fun entries => { s with entries }) ?_
    show (s.entries.modify k _).map StackEntry.unplaced =
      (s.entries.map StackEntry.unplaced).modify k _
    refine List.ext_getElem? fun i => ?_
    rw [List.getElem?_map, List.getElem?_modify, List.getElem?_modify, List.getElem?_map]
    by_cases hk : k = i
    · cases s.entries[i]? <;> simp [hk, StackEntry.unplaced]
    · simp [hk]

/-- An assignment changes no state and no symbol. -/
theorem assign_places (s : Scope) (slot : Slot) (name value : String) :
    (s.assign slot name value).entries.map StackEntry.place = s.entries.map StackEntry.place := by
  cases slot with
  | lhs => rfl
  | rhs k =>
    refine List.ext_getElem? fun i => ?_
    show ((s.entries.modify k _).map StackEntry.place)[i]? = _
    rw [List.getElem?_map, List.getElem?_modify, List.getElem?_map]
    by_cases hk : k = i
    · cases s.entries[i]? <;> simp [hk, StackEntry.place]
    · simp [hk]

theorem assign_rule (s : Scope) (slot : Slot) (name value : String) :
    (s.assign slot name value).rule = s.rule := by
  cases slot <;> rfl

/-! ## Confined tasks -/

/-- A task that keeps the rule and the places of the entries, writes and takes registers at most, blames
no table, and does the same wherever the entries are. -/
structure Confined {α : Type} (t : Task Scope ParseError α) : Prop where
  rule (s : Scope) : (t.run s).state.rule = s.rule
  places (s : Scope) :
    (t.run s).state.entries.map StackEntry.place = s.entries.map StackEntry.place
  quiet (s : Scope) : ∀ e ∈ (t.run s).events, e.isLocal = true
  blameless (s : Scope) (what : Inconsistency) : (t.run s).result ≠ .error (.inconsistent what)
  unplaced (s : Scope) : t.run s.unplaced =
    { t.run s with state := (t.run s).state.unplaced }

section

variable {α β : Type} {t : Task Scope ParseError α} {f : α → Task Scope ParseError β}

theorem Confined.reduces_nothing (h : Confined t) (s : Scope) :
    reducedRules (t.run s).events = [] :=
  List.filterMap_eq_nil_iff.2 fun e he => e.reducedRule?_of_isLocal (h.quiet s e he)

/-! Single steps are confined: values; failures, unless they blame a table; events of guards and of
actions; and changes that keep the rule and the places, and do not depend on where entries are. -/

theorem confined_pure (a : α) : Confined (pure a : Task Scope ParseError α) :=
  ⟨fun _ => rfl, fun _ => rfl, fun _ _ h => (nomatch h), fun _ _ h => (nomatch h), fun _ => rfl⟩

theorem confined_fail {e : ParseError} (he : ∀ what, e ≠ .inconsistent what) :
    Confined (Task.fail e : Task Scope ParseError α) :=
  ⟨fun _ => rfl, fun _ => rfl, fun _ _ h => (nomatch h), fun _ what h => he what (Except.error.inj h),
    fun _ => rfl⟩

theorem confined_note {e : Event} (he : e.isLocal = true) :
    Confined (Task.note e : Task Scope ParseError Unit) :=
  ⟨fun _ => rfl, fun _ => rfl, fun _ => List.forall_mem_singleton.2 he, fun _ _ h => (nomatch h),
    fun _ => rfl⟩

theorem confined_modify {g : Scope → Scope} (hrule : ∀ s, (g s).rule = s.rule)
    (hplaces : ∀ s, (g s).entries.map StackEntry.place = s.entries.map StackEntry.place)
    (hunplaced : ∀ s, g s.unplaced = (g s).unplaced) :
    Confined (Task.modify g : Task Scope ParseError Unit) :=
  ⟨hrule, hplaces, fun _ _ h => (nomatch h), fun _ _ h => (nomatch h),
    fun s => congrArg (Completed.mk [] · _) (hunplaced s)⟩

/-- Doing one thing and then another is confined if both are. -/
theorem Confined.bind (ht : Confined t) (hf : ∀ a, Confined (f a)) : Confined (t >>= f) := by
  refine ⟨fun s => ?_, fun s => ?_, fun s => ?_, fun s what => ?_, fun s => ?_⟩
  -- each part holds of the first task if it fails, and of both otherwise
  all_goals rw [Task.run_bind]
  · cases (t.run s).result with
    | error e => exact ht.rule s
    | ok a => exact ((hf a).rule _).trans (ht.rule s)
  · cases (t.run s).result with
    | error e => exact ht.places s
    | ok a => exact ((hf a).places _).trans (ht.places s)
  · cases (t.run s).result with
    | error e => exact ht.quiet s
    | ok a => exact List.forall_mem_append.2 ⟨ht.quiet s, (hf a).quiet _⟩
  · cases hr : (t.run s).result with
    | error e =>
      intro he
      exact ht.blameless s what (hr.trans (congrArg Except.error (Except.error.inj he)))
    | ok a => exact (hf a).blameless _ what
  · rw [Task.run_bind, ht.unplaced s]
    cases (t.run s).result with
    | error e => rfl
    | ok a =>
      dsimp only
      rw [(hf a).unplaced]

/-- Looking at what does not depend on where the entries are. -/
theorem Confined.get_bind {g : Scope → Task Scope ParseError β} (hg : ∀ s, Confined (g s))
    (hunplaced : ∀ s, g s.unplaced = g s) : Confined (Task.get >>= g) := by
  refine ⟨fun s => (hg s).rule s, fun s => (hg s).places s, fun s => (hg s).quiet s,
    fun s => (hg s).blameless s, fun s => ?_⟩
  show Completed.mk _ _ _ = Completed.mk _ _ _
  rw [hunplaced s]
  exact (hg s).unplaced s

end

/-! ## Guards and actions -/

theorem confined_ofExcept {α : Type} {r : Except ParseError α}
    (hr : ∀ what, r ≠ .error (.inconsistent what)) :
    Confined (Task.ofExcept r : Task Scope ParseError α) :=
  ⟨fun _ => rfl, fun _ => rfl, fun _ _ h => (nomatch h), fun _ what => hr what, fun _ => rfl⟩

/-- To read an attribute blames no table. -/
theorem read_ne_inconsistent (s : Scope) (ref : AttributeRef) (what : Inconsistency) :
    s.read ref ≠ .error (.inconsistent what) := by
  unfold read
  split
  · exact fun h => nomatch h
  · split <;> exact fun h => nomatch h

theorem confined_newRegister : Confined newRegister := by
  refine ⟨fun _ => rfl, fun _ => rfl, fun s => ?_, fun _ _ h => (nomatch h), fun _ => rfl⟩
  show ∀ e ∈ [Event.registerIssued s.registers], e.isLocal = true
  exact List.forall_mem_singleton.2 rfl

/-- An expression takes a register, says a text or reads an attribute. -/
theorem confined_evaluate (e : Expression) : Confined (evaluate e) := by
  cases e with
  | newRegister => exact confined_newRegister
  | literal text => exact confined_pure text
  | read ref =>
    refine .get_bind (fun s => confined_ofExcept fun what => read_ne_inconsistent s ref what) ?_
    intro s
    rw [read_unplaced]

/-- A line is reported, and as much of it is written as there is room for; it fails if that is not
all. -/
theorem run_emit (line : String) (s : Scope) :
    (emit line).run s = ⟨[.emitted line],
      { s with output := s.output.write (Sink.lineBytes line) },
      if s.output.takes (Sink.lineBytes line) then .ok () else .error (.broken Sink.refusal)⟩ := by
  unfold emit
  rw [Task.run_note_bind, Task.run_get_bind, Task.run_modify_bind]
  cases s.output.takes (Sink.lineBytes line) <;> rfl

/-- To write a line changes the output only. -/
theorem confined_emit (line : String) : Confined (emit line) := by
  refine (confined_note rfl).bind fun _ => .get_bind (fun s => ?_) fun _ => rfl
  refine Confined.bind (confined_modify (fun _ => rfl) (fun _ => rfl) (fun _ => rfl)) fun _ => ?_
  split
  · exact confined_pure _
  · exact confined_fail fun _ h => nomatch h

/-- An assignment fails if there is no such target, and changes attributes otherwise. -/
theorem confined_assignTo (ref : AttributeRef) (value : String) :
    Confined (assignTo ref value) := by
  refine .get_bind (fun s => ?_) fun _ => rfl
  cases s.rule.slot? ref.target with
  | none => exact confined_fail fun _ h => nomatch h
  | some slot =>
    exact confined_modify (fun s => s.assign_rule slot _ _) (fun s => s.assign_places slot _ _)
      fun s => (s.assign_unplaced slot _ _).symm

/-- The single things that guards and actions do are confined. -/
theorem composes_confined : Composes Confined where
  nothing := confined_pure
  bind := Confined.bind
  evaluate := confined_evaluate
  emit := confined_emit
  assignTo := confined_assignTo
  lhs := .get_bind (fun s => confined_pure s.lhs) fun _ => rfl

theorem confined_test (c : Condition) : Confined (test c) := composes_confined.test c

theorem confined_act (rule : Rule) : Confined (Grammar.act rule) := composes_confined.act rule

/-! ## What a guard changes -/

/-- An expression changes the register counter at most. -/
theorem state_evaluate (e : Expression) (s : Scope) :
    ((evaluate e).run s).state = { s with registers := ((evaluate e).run s).state.registers } := by
  cases e <;> rfl

/-- An expression that takes no register changes nothing. -/
theorem state_evaluate_of_ne {e : Expression} (he : e ≠ .newRegister) (s : Scope) :
    ((evaluate e).run s).state = s := by
  cases e with
  | newRegister => exact absurd rfl he
  | literal text => rfl
  | read ref => rfl

/-- A guard changes the register counter at most. -/
theorem state_test (c : Condition) (s : Scope) :
    ((test c).run s).state = { s with registers := ((test c).run s).state.registers } := by
  unfold test
  rw [Task.run_bind]
  -- if the left side fails, the right side is not looked at
  cases ((evaluate c.left).run s).result with
  | error e => exact state_evaluate c.left s
  | ok left =>
    dsimp only
    rw [Task.run_bind]
    rw [state_evaluate c.left s]
    cases ((evaluate c.right).run _).result with
    | error e => exact state_evaluate c.right _
    | ok right => exact state_evaluate c.right _

/-- Whether a guard takes a register. -/
def TakesRegister (c : Condition) : Prop := c.left = .newRegister ∨ c.right = .newRegister

/-- A guard that takes no register changes nothing. -/
theorem state_test_of_not_takesRegister {c : Condition} (hc : ¬TakesRegister c) (s : Scope) :
    ((test c).run s).state = s := by
  obtain ⟨hleft, hright⟩ := not_or.1 hc
  unfold test
  rw [Task.run_bind]
  have hl := state_evaluate_of_ne hleft s
  cases ((evaluate c.left).run s).result with
  | error e => exact hl
  | ok left =>
    dsimp only
    rw [hl, Task.run_bind]
    have hr := state_evaluate_of_ne hright s
    cases ((evaluate c.right).run s).result with
    | error e => exact hr
    | ok right => exact hr

end Scope

end GuardedGrammar
