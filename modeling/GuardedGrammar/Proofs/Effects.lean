/-
  What an action does.

  Statements are carried out one after the other until there is none left or one of them stops.  A
  statement first evaluates its expressions in order, each of which may take a register; then it writes
  a line or assigns a value (`Performs`).  It stops at an attribute that cannot be read, at a target
  that means nothing, or at an output that does not take the line (`Stops`).  What the statements before
  have done is not undone, and those behind are not begun.

  So all that an action leaves is what the statements do that it has carried out, and the registers that
  the last one has taken (`Effects`): attributes are given new values or added behind the others, and
  symbols and states stay where they are.

  Main statement: `execute_effects`.
-/
import GuardedGrammar.Proofs.Occurrences

namespace GuardedGrammar

/-- The expressions of a statement, in the order in which they are evaluated. -/
def Statement.expressions : Statement → List Expression
  | .emit parts => parts
  | .assign _ value => [value]

/-- The error blames an attribute or a target, and not the output. -/
inductive ParseError.BlamesReference : ParseError → Prop
  | missing (ref : AttributeRef) : BlamesReference (.missingAttribute ref)
  | unbound (target : Target) : BlamesReference (.unboundTarget target)

namespace Scope

/-! ## What statements do -/

/-- The values of expressions that are evaluated one after the other, with the number of the next
register before and after. -/
inductive Values (c : Scope) : Nat → List Expression → List String → Nat → Prop
  | nil (k : Nat) : Values c k [] [] k
  | newRegister {k k' : Nat} {rest : List Expression} {values : List String}
    (hrest : Values c (k + 1) rest values k') :
    Values c k (.newRegister :: rest) (toString k :: values) k'
  | literal {k k' : Nat} {text : String} {rest : List Expression} {values : List String}
    (hrest : Values c k rest values k') : Values c k (.literal text :: rest) (text :: values) k'
  | read {k k' : Nat} {ref : AttributeRef} {value : String} {rest : List Expression}
    {values : List String} (hread : c.read ref = .ok value) (hrest : Values c k rest values k') :
    Values c k (.read ref :: rest) (value :: values) k'

/-- What a statement does that is carried out: the lines that it writes, and the scope that it leaves. -/
inductive Performs (c : Scope) : Statement → List String → Scope → Prop
  | emit {parts : List Expression} {values : List String} {k : Nat}
    (hvalues : c.Values c.registers parts values k)
    (htakes : c.output.takes (Sink.lineBytes (String.join values)) = true) :
    Performs c (.emit parts) [String.join values]
      { c with registers := k, output := c.output.write (Sink.lineBytes (String.join values)) }
  | assign {ref : AttributeRef} {e : Expression} {value : String} {k : Nat} {slot : Slot}
    (hvalue : c.Values c.registers [e] [value] k) (hmeans : c.rule.Means ref.target slot) :
    Performs c (.assign ref e) [] ({ c with registers := k }.assign slot ref.name value)

/-- What statements do that are carried out one after the other. -/
inductive Carries : Scope → List Statement → List String → Scope → Prop
  | nil (c : Scope) : Carries c [] [] c
  | cons {c c₁ c₂ : Scope} {st : Statement} {rest : List Statement} {lines lines' : List String}
    (hst : c.Performs st lines c₁) (hrest : Carries c₁ rest lines' c₂) :
    Carries c (st :: rest) (lines ++ lines') c₂

/-- How a statement stops: the expressions that it has evaluated, the last of them in vain if it has no
value, the error, and the scope that it leaves. -/
inductive Stops (c : Scope) : Statement → List Expression → ParseError → Scope → Prop
  | noValue {st : Statement} {before after : List Expression} {ref : AttributeRef}
    {values : List String} {k : Nat} {e : ParseError}
    (hparts : st.expressions = before ++ .read ref :: after)
    (hvalues : c.Values c.registers before values k) (hread : c.read ref = .error e) :
    Stops c st (before ++ [.read ref]) e { c with registers := k }
  | unbound {ref : AttributeRef} {e : Expression} {value : String} {k : Nat}
    (hvalue : c.Values c.registers [e] [value] k)
    (hnone : ∀ s ∈ c.rule.symbols, ¬s.GoesBy ref.target) :
    Stops c (.assign ref e) [e] (.unboundTarget ref.target) { c with registers := k }
  | refused {parts : List Expression} {values : List String} {k : Nat}
    (hvalues : c.Values c.registers parts values k)
    (htakes : c.output.takes (Sink.lineBytes (String.join values)) = false) :
    Stops c (.emit parts) parts (.broken Sink.refusal)
      { c with registers := k, output := c.output.write (Sink.lineBytes (String.join values)) }

/-! ## What is carried out does that -/

variable {c c' c₁ c₂ : Scope}

/-- A register is taken by its number, which is reported, and the next one is the next number. -/
theorem run_newRegister (c : Scope) :
    newRegister.run c =
      ⟨[.registerIssued c.registers], { c with registers := c.registers + 1 },
        .ok (toString c.registers)⟩ := rfl

/-- An expression has a value, or it reads an attribute that cannot be read. -/
theorem evaluate_cases (e : Expression) (c : Scope) :
    (∃ value k events, (∀ rest values k', c.Values k rest values k' →
          c.Values c.registers (e :: rest) (value :: values) k') ∧
        (evaluate e).run c = ⟨events, { c with registers := k }, .ok value⟩) ∨
      ∃ ref err, e = .read ref ∧ c.read ref = .error err ∧
        (evaluate e).run c = ⟨[], c, .error err⟩ := by
  cases e with
  | newRegister =>
    refine .inl ⟨toString c.registers, c.registers + 1, _, ?_, run_newRegister c⟩
    exact fun _ _ _ hrest => .newRegister hrest
  | literal text => exact .inl ⟨text, c.registers, [], fun _ _ _ hrest => .literal hrest, rfl⟩
  | read ref =>
    have hrun : (evaluate (.read ref)).run c = ⟨[], c, c.read ref⟩ := rfl
    rw [hrun]
    cases hread : c.read ref with
    | ok value => exact .inl ⟨value, c.registers, [], fun _ _ _ hrest => .read hread hrest, rfl⟩
    | error err => exact .inr ⟨ref, err, rfl, hread, rfl⟩

/-- To read fails only because of the attribute or its target. -/
theorem blamesReference_of_read {ref : AttributeRef} {e : ParseError} (h : c.read ref = .error e) :
    e.BlamesReference := by
  unfold read at h
  split at h
  · obtain rfl := Except.error.inj h
    exact .unbound _
  · split at h
    · obtain rfl := Except.error.inj h
      exact .missing _
    · exact nomatch h

/-- To evaluate an expression fails only because of an attribute that it reads. -/
theorem blamesReference_of_evaluate {expr : Expression} {e : ParseError}
    (h : ((evaluate expr).run c).result = .error e) : e.BlamesReference := by
  rcases evaluate_cases expr c with ⟨value, k, events, -, hrun⟩ | ⟨ref, err, -, hread, hrun⟩
  · rw [hrun] at h
    exact nomatch h
  · rw [hrun] at h
    obtain rfl := Except.error.inj h
    exact blamesReference_of_read hread

/-- A guard fails only because of an attribute that it reads. -/
theorem blamesReference_of_test {guard : Condition} {e : ParseError}
    (h : ((test guard).run c).result = .error e) : e.BlamesReference := by
  unfold test at h
  rw [Task.run_bind] at h
  cases hleft : ((evaluate guard.left).run c).result with
  | error err =>
    rw [hleft] at h
    obtain rfl := Except.error.inj h
    exact blamesReference_of_evaluate hleft
  | ok left =>
    rw [hleft] at h
    dsimp only at h
    rw [Task.run_bind] at h
    cases hright : ((evaluate guard.right).run ((evaluate guard.left).run c).state).result with
    | error err =>
      rw [hright] at h
      obtain rfl := Except.error.inj h
      exact blamesReference_of_evaluate hright
    | ok right =>
      rw [hright] at h
      exact nomatch h

/-- What is read does not depend on the number of the next register, and so the values do not either. -/
theorem Values.of_registers {j k k' : Nat} {parts : List Expression} {values : List String}
    (h : { c with registers := j }.Values k parts values k') : c.Values k parts values k' := by
  induction h with
  | nil k => exact .nil k
  | newRegister _ ih => exact .newRegister ih
  | literal _ ih => exact .literal ih
  | read hread _ ih => exact .read hread ih

/-- Expressions have values, or they have them up to one that reads an attribute that cannot be read. -/
theorem evaluateAll_cases (parts : List Expression) (c : Scope) :
    (∃ values k events, c.Values c.registers parts values k ∧
        (evaluateAll parts).run c = ⟨events, { c with registers := k }, .ok (String.join values)⟩) ∨
      ∃ before ref after values k err events, parts = before ++ .read ref :: after ∧
        c.Values c.registers before values k ∧ c.read ref = .error err ∧
        (evaluateAll parts).run c = ⟨events, { c with registers := k }, .error err⟩ := by
  induction parts generalizing c with
  | nil => exact .inl ⟨[], c.registers, [], .nil _, rfl⟩
  | cons e rest ih =>
    unfold evaluateAll
    rcases evaluate_cases e c with ⟨value, k, events, hvalue, hrun⟩ | ⟨ref, err, rfl, hread, hrun⟩
    · rw [Task.run_bind_of_ok hrun, Task.run_bind]
      -- the others are evaluated with the counter moved on, which changes nothing that they read
      rcases ih { c with registers := k } with
        ⟨values, k', events', hvalues, hrest⟩ |
        ⟨before, ref, after, values, k', err, events', rfl, hvalues, hread, hrest⟩
      · refine .inl ⟨value :: values, k', events ++ (events' ++ []),
          hvalue _ _ _ hvalues.of_registers, ?_⟩
        rw [hrest, String.join_cons]
        rfl
      · refine .inr ⟨e :: before, ref, after, value :: values, k', err, events ++ events', rfl,
          hvalue _ _ _ hvalues.of_registers, hread, ?_⟩
        rw [hrest]
    · -- the first expression fails, and the others are not looked at
      refine .inr ⟨[], ref, rest, [], c.registers, err, [], rfl, .nil _, hread, ?_⟩
      rw [Task.run_bind, hrun]

/-- A statement is carried out, or it stops. -/
theorem perform_cases (st : Statement) (c : Scope) :
    (∃ lines c' events, c.Performs st lines c' ∧ (perform st).run c = ⟨events, c', .ok ()⟩) ∨
      ∃ last e c' events, c.Stops st last e c' ∧ (perform st).run c = ⟨events, c', .error e⟩ := by
  cases st with
  | emit parts =>
    unfold perform
    rcases evaluateAll_cases parts c with
      ⟨values, k, events, hvalues, hrun⟩ |
      ⟨before, ref, after, values, k, err, events, hparts, hvalues, hread, hrun⟩
    · -- the line is put together before it is written, and the sink takes it or not
      rw [Task.run_bind_of_ok hrun, run_emit]
      cases htakes : c.output.takes (Sink.lineBytes (String.join values)) with
      | true => exact .inl ⟨_, _, _, .emit hvalues htakes, rfl⟩
      | false => exact .inr ⟨_, _, _, _, .refused hvalues htakes, rfl⟩
    · refine .inr ⟨_, _, _, events, .noValue hparts hvalues hread, ?_⟩
      rw [Task.run_bind, hrun]
  | assign ref e =>
    unfold perform
    rcases evaluate_cases e c with ⟨value, k, events, hvalue, hrun⟩ | ⟨ref', err, rfl, hread, hrun⟩
    · -- the value is there before the target is looked up, and so is the register that it has taken
      have hvalues : c.Values c.registers [e] [value] k := hvalue _ _ _ (.nil k)
      rw [Task.run_bind_of_ok hrun]
      cases hslot : c.rule.slot? ref.target with
      | none =>
        rw [run_assignTo_of_slot?_eq_none (c := { c with registers := k }) hslot]
        exact .inr ⟨_, _, _, _, .unbound hvalues (Rule.slot?_eq_none_iff.1 hslot), rfl⟩
      | some slot =>
        have hmeans : c.rule.Means ref.target slot := Rule.slot?_eq_some_iff.1 hslot
        rw [run_assignTo_of_means (c := { c with registers := k }) hmeans]
        exact .inl ⟨_, _, _, .assign hvalues hmeans, rfl⟩
    · have hparts : (Statement.assign ref (.read ref')).expressions = [] ++ [.read ref'] := rfl
      refine .inr ⟨_, _, _, [], .noValue hparts (.nil _) hread, ?_⟩
      rw [Task.run_bind, hrun]

/-- Statements are carried out up to one that stops, if there is one; then those behind it make no
difference. -/
theorem execute_cases (statements : List Statement) (c : Scope) :
    (∃ lines c' events, c.Carries statements lines c' ∧
        (execute statements).run c = ⟨events, c', .ok ()⟩) ∨
      ∃ executed st rest lines c₁ last e c' events, statements = executed ++ st :: rest ∧
        c.Carries executed lines c₁ ∧ c₁.Stops st last e c' ∧
        ∀ rest', (execute (executed ++ st :: rest')).run c = ⟨events, c', .error e⟩ := by
  induction statements generalizing c with
  | nil => exact .inl ⟨[], c, [], .nil c, rfl⟩
  | cons st rest ih =>
    rcases perform_cases st c with ⟨lines, c₁, events, hst, hrun⟩ | ⟨last, e, c', events, hst, hrun⟩
    · rcases ih c₁ with
        ⟨lines', c', events', hrest, hrun'⟩ |
        ⟨executed, st', rest', lines', c₂, last, e, c', events', rfl, hcarries, hstops, hrun'⟩
      · refine .inl ⟨lines ++ lines', c', events ++ events', .cons hst hrest, ?_⟩
        unfold execute
        rw [Task.run_bind_of_ok hrun, hrun']
      · refine .inr ⟨st :: executed, st', rest', lines ++ lines', c₂, last, e, c', events ++ events',
          rfl, .cons hst hcarries, hstops, fun others => ?_⟩
        rw [List.cons_append]
        unfold execute
        rw [Task.run_bind_of_ok hrun, hrun']
    · -- the statement stops before any of the others is begun, whichever they are
      refine .inr ⟨[], st, rest, [], c, last, e, c', events, rfl, .nil c, hst, fun others => ?_⟩
      rw [List.nil_append]
      unfold execute
      rw [Task.run_bind, hrun]

/-! ## What is left alone -/

/-- What becomes of a scope when expressions have been evaluated and statements been carried out. -/
structure Effects (c : Scope) (statements : List Statement) (evaluated : List Expression)
    (c' : Scope) : Prop where
  rule : c'.rule = c.rule
  /-- There are as many entries as before, with their states and symbols. -/
  places : c'.entries.map StackEntry.place = c.entries.map StackEntry.place
  /-- The attributes that an occurrence has are kept in their order, and others come behind them. -/
  names (slot : Slot) : (c.attributes slot).names <+: (c'.attributes slot).names
  /-- An attribute is changed only if it is assigned. -/
  changed (slot : Slot) (name : String) :
    (c'.attributes slot).get? name ≠ (c.attributes slot).get? name →
      ∃ ref e, .assign ref e ∈ statements ∧ c.rule.Means ref.target slot ∧ ref.name = name
  /-- Registers are taken by the expressions that ask for one, and by no others. -/
  registers : c'.registers = c.registers + evaluated.count .newRegister

theorem Effects.refl (c : Scope) : c.Effects [] [] c :=
  ⟨rfl, rfl, fun _ => List.prefix_rfl, fun _ _ h => absurd rfl h, rfl⟩

/-- Effects one after the other are the effects of both. -/
theorem Effects.trans {statements statements' : List Statement}
    {evaluated evaluated' : List Expression} (h : c.Effects statements evaluated c₁)
    (h' : c₁.Effects statements' evaluated' c₂) :
    c.Effects (statements ++ statements') (evaluated ++ evaluated') c₂ where
  rule := h'.rule.trans h.rule
  places := h'.places.trans h.places
  names slot := (h.names slot).trans (h'.names slot)
  changed slot name hchanged := by
    -- what is different in the end has been changed first or last
    by_cases hlast : (c₂.attributes slot).get? name = (c₁.attributes slot).get? name
    · obtain ⟨ref, e, hmem, hmeans, hname⟩ := h.changed slot name (hlast ▸ hchanged)
      exact ⟨ref, e, List.mem_append_left _ hmem, hmeans, hname⟩
    · obtain ⟨ref, e, hmem, hmeans, hname⟩ := h'.changed slot name hlast
      exact ⟨ref, e, List.mem_append_right _ hmem, h.rule ▸ hmeans, hname⟩
  registers := by
    have hfirst := h.registers
    have hlast := h'.registers
    rw [List.count_append]
    omega

/-- The counter moves by one for each register that is taken. -/
theorem Values.registers {k k' : Nat} {parts : List Expression} {values : List String}
    (h : c.Values k parts values k') : k' = k + parts.count .newRegister := by
  induction h with
  | nil k => rfl
  | newRegister _ ih =>
    rw [List.count_cons_self]
    omega
  | @literal _ _ text _ _ _ ih =>
    have hne : Expression.literal text ≠ .newRegister := nofun
    rw [List.count_cons_of_ne hne]
    exact ih
  | @read _ _ ref _ _ _ _ _ ih =>
    have hne : Expression.read ref ≠ .newRegister := nofun
    rw [List.count_cons_of_ne hne]
    exact ih

/-- To evaluate expressions and to write changes nothing but the register counter and the output. -/
theorem Values.effects {k : Nat} {parts : List Expression} {values : List String}
    (h : c.Values c.registers parts values k) (output : Sink) :
    c.Effects [] parts { c with registers := k, output } :=
  ⟨rfl, rfl, fun _ => List.prefix_rfl, fun _ _ hne => absurd rfl hne, h.registers⟩

/-- An assignment gives its occurrence an attribute, and leaves other occurrences alone. -/
theorem attributes_assign_cases (c : Scope) (slot slot' : Slot) (name value : String) :
    (c.assign slot name value).attributes slot' = c.attributes slot' ∨
      slot' = slot ∧
        (c.assign slot name value).attributes slot' = (c.attributes slot').insert name value := by
  by_cases hslot : slot' = slot
  · subst hslot
    cases slot' with
    | lhs => exact .inr ⟨rfl, rfl⟩
    | rhs k =>
      -- a slot beyond the entries has no attributes to be changed
      rcases Nat.lt_or_ge k c.entries.length with hlt | hge
      · refine .inr ⟨rfl, attributes_assign_self (fun j hj => ?_) name value⟩
        cases hj
        exact hlt
      · refine .inl ?_
        unfold assign attributes
        dsimp only
        rw [List.getElem?_modify, List.getElem?_eq_none hge]
        rfl
  · exact .inl (attributes_assign_of_ne hslot name value)

/-- An assignment changes the one attribute that it names, of the occurrence that it means. -/
theorem effects_assign {ref : AttributeRef} {slot : Slot} (hmeans : c.rule.Means ref.target slot)
    (e : Expression) (value : String) :
    c.Effects [.assign ref e] [] (c.assign slot ref.name value) where
  rule := c.assign_rule slot ref.name value
  places := c.assign_places slot ref.name value
  names slot' := by
    rcases c.attributes_assign_cases slot slot' ref.name value with h | ⟨-, h⟩
    · exact ⟨[], by rw [List.append_nil, h]⟩
    · rw [h, Attributes.names_insert]
      split
      · exact List.prefix_rfl
      · exact List.prefix_append _ _
  changed slot' name hchanged := by
    rcases c.attributes_assign_cases slot slot' ref.name value with h | ⟨rfl, h⟩
    · exact absurd (congrArg (·.get? name) h) hchanged
    · -- of the attributes of the occurrence, only the one that is named is different
      rw [h, Attributes.get?_insert] at hchanged
      by_cases hname : name = ref.name
      · exact ⟨ref, e, List.mem_singleton_self _, hmeans, hname.symm⟩
      · rw [if_neg hname] at hchanged
        exact absurd rfl hchanged
  registers := by cases slot <;> rfl

/-- A statement that is carried out evaluates its expressions, and assigns what it says. -/
theorem Performs.effects {st : Statement} {lines : List String} (h : c.Performs st lines c') :
    c.Effects [st] st.expressions c' := by
  cases h with
  | @emit _ values _ hvalues _ =>
    have heffects := hvalues.effects (c.output.write (Sink.lineBytes (String.join values)))
    exact { heffects with changed := fun _ _ hne => absurd rfl hne }
  | @assign _ e value k _ hvalue hmeans =>
    have heffects := hvalue.effects c.output
    exact heffects.trans (effects_assign (c := { c with registers := k }) hmeans e value)

/-- By induction on the statements that are carried out. -/
theorem Carries.effects {statements : List Statement} {lines : List String}
    (h : c.Carries statements lines c') :
    c.Effects statements (statements.flatMap Statement.expressions) c' := by
  induction h with
  | nil c => exact .refl c
  | cons hst _ ih =>
    rw [List.flatMap_cons]
    exact hst.effects.trans ih

/-- A statement that stops has taken registers, and assigned nothing. -/
theorem Stops.effects {st : Statement} {last : List Expression} {e : ParseError}
    (h : c.Stops st last e c') : c.Effects [] last c' := by
  cases h with
  | noValue _ hvalues _ =>
    have heffects := hvalues.effects c.output
    refine { heffects with registers := ?_ }
    rw [List.count_append, List.count_singleton, if_neg (by simp)]
    exact heffects.registers
  | unbound hvalue _ => exact hvalue.effects c.output
  | refused hvalues _ => exact hvalues.effects _

/-! ## What is written -/

/-- A statement that is carried out writes its lines as a whole. -/
theorem Performs.written {st : Statement} {lines : List String} (h : c.Performs st lines c') :
    c'.output.written = c.output.written ++ lines.flatMap Sink.lineBytes := by
  cases h with
  | emit _ htakes =>
    rw [Sink.written_write, Sink.fitting_of_takes _ _ htakes, List.flatMap_singleton]
  | @assign _ _ _ _ slot _ _ =>
    rw [List.flatMap_nil, List.append_nil]
    cases slot <;> rfl

/-- By induction on the statements: their lines come one behind the other. -/
theorem Carries.written {statements : List Statement} {lines : List String}
    (h : c.Carries statements lines c') :
    c'.output.written = c.output.written ++ lines.flatMap Sink.lineBytes := by
  induction h with
  | nil c => exact (List.append_nil _).symm
  | cons hst _ ih => rw [ih, hst.written, List.flatMap_append, List.append_assoc]

/-- A statement that stops at an attribute or a target writes nothing. -/
theorem Stops.eq_of_blamesReference {st : Statement} {last : List Expression} {e : ParseError}
    (h : c.Stops st last e c') (he : e.BlamesReference) :
    c' = { c with registers := c'.registers } := by
  cases h with
  | noValue => rfl
  | unbound => rfl
  | refused => exact nomatch he

/-- An action carries out all of its statements, or it stops at one of them.  Then those before it have
been carried out and those behind it make no difference, whatever they are.

Either way the places of the entries are as before; an occurrence has different attributes only where a
statement that has been carried out assigns them by way of a target that means it, those that it had
keep their order, and new ones come behind them; and there have been taken as many registers as there
are expressions that take one among those that have been evaluated.  What the statements before have
written are complete lines, and if the statement has stopped at an attribute or a target, then it has
left nothing behind but registers that it has taken. -/
theorem execute_effects {statements : List Statement} {c c' : Scope} {events : List Event}
    {result : Except ParseError Unit} (h : (execute statements).run c = ⟨events, c', result⟩) :
    ∃ executed remaining lines c₁ last, statements = executed ++ remaining ∧
      c.Carries executed lines c₁ ∧
      c.Effects executed (executed.flatMap Statement.expressions ++ last) c' ∧
      c₁.output.written = c.output.written ++ lines.flatMap Sink.lineBytes ∧
      ((result = .ok () ∧ remaining = [] ∧ last = [] ∧ c' = c₁) ∨
        ∃ st rest e, remaining = st :: rest ∧ result = .error e ∧ c₁.Stops st last e c' ∧
          (∀ rest', (execute (executed ++ st :: rest')).run c = ⟨events, c', .error e⟩) ∧
          (e.BlamesReference → c' = { c₁ with registers := c'.registers })) := by
  rcases execute_cases statements c with
    ⟨lines, c₁, events₁, hcarries, hrun⟩ |
    ⟨executed, st, rest, lines, c₁, last, e, c₂, events₁, rfl, hcarries, hstops, hrun⟩
  · -- all of the statements have been carried out
    obtain ⟨-, rfl, rfl⟩ := Completed.mk.inj (h.symm.trans hrun)
    refine ⟨statements, [], lines, c', [], (List.append_nil _).symm, hcarries, ?_, hcarries.written,
      .inl ⟨rfl, rfl, rfl, rfl⟩⟩
    rw [List.append_nil]
    exact hcarries.effects
  · -- one of them has stopped: its effects come behind those of the statements before it
    obtain ⟨rfl, rfl, rfl⟩ := Completed.mk.inj (h.symm.trans (hrun rest))
    refine ⟨executed, st :: rest, lines, c₁, last, rfl, hcarries, ?_, hcarries.written,
      .inr ⟨st, rest, e, rfl, rfl, hstops, hrun, hstops.eq_of_blamesReference⟩⟩
    have heffects := hcarries.effects.trans hstops.effects
    rw [List.append_nil] at heffects
    exact heffects

/-- Two terms that are to be added. -/
def sumScope : Scope := { rule := sumRule, entries := sumEntries }

/-- An action that asks for an attribute that the terms do not have, when it has assigned one value and
written one line. -/
def addition : List Statement :=
  [.assign ⟨.numbered 0, "r"⟩ .newRegister, .emit [.literal "add ", .read ⟨.numbered 1, "v"⟩],
    .emit [.newRegister, .read ⟨.numbered 2, "w"⟩], .assign ⟨.numbered 0, "r"⟩ (.literal "lost")]

/-- The value stays assigned and the line written, the register stays taken that the failing statement
has taken, and what stands behind it does not matter. -/
theorem execute_addition_effects :
    ∃ (executed rest : List Statement) (st : Statement) (c₁ : Scope) (last : List Expression),
      addition = executed ++ st :: rest ∧
      c₁.Stops st last (.missingAttribute ⟨.numbered 2, "w"⟩)
        ((execute addition).run sumScope).state ∧
      ((execute addition).run sumScope).state = { c₁ with registers := 2 } ∧
      c₁.read ⟨.numbered 0, "r"⟩ = .ok "0" ∧ c₁.output.written = Sink.lineBytes "add 1" ∧
      ∀ rest', ((execute (executed ++ st :: rest')).run sumScope).state.entries = sumEntries := by
  have hrun : (execute addition).run sumScope = ⟨((execute addition).run sumScope).events,
      ((execute addition).run sumScope).state, .error (.missingAttribute ⟨.numbered 2, "w"⟩)⟩ := rfl
  obtain ⟨executed, remaining, lines, c₁, last, hsplit, -, -, -, hend⟩ := execute_effects hrun
  obtain ⟨hok, -⟩ | ⟨st, rest, e, rfl, he, hstops, hrest, hleft⟩ := hend
  · exact nomatch hok
  · obtain rfl := Except.error.inj he
    have hstate := hleft (.missing _)
    have hread : ((execute addition).run sumScope).state.read ⟨.numbered 0, "r"⟩ = .ok "0" := rfl
    have hwritten : ((execute addition).run sumScope).state.output.written =
        Sink.lineBytes "add 1" := rfl
    rw [hstate] at hread hwritten
    refine ⟨executed, rest, st, c₁, last, hsplit, hstops, hstate, hread, hwritten, fun rest' => ?_⟩
    rw [hrest rest']
    rfl

end Scope

end GuardedGrammar
