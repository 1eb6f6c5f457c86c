/-
  How registers are numbered.

  A register is taken where an expression asks for one, in a guard or in an action, and the counter of
  the session shows how many have been taken.  Whatever else is done, be it that a guard does not hold,
  that an action fails, or that a scope is left early, the counter stays where it is.  So each task takes
  registers in a row, from where the counter stands to where it leaves it (`TakesInOrder`); two tasks
  one after the other do so if both do, and hence all that is composed of such tasks.  How many a guard or
  an action takes can be told from the expressions that it has evaluated (`registersTaken_test`,
  `registersTaken_execute`), and what happens in its scope happens in the parse
  (`Session.inScope_eq_of_ok`).

  Main statement: `parse_numbers_registers`, over a whole parse the registers are 0, 1, 2 and so on.
-/
import GuardedGrammar.Proofs.Asking
import GuardedGrammar.Proofs.Effects

namespace GuardedGrammar

/-! ## Registers among the events -/

/-- The number of the register that an event reports. -/
def Event.register? : Event → Option Nat
  | .registerIssued k => some k
  | _ => none

/-- The registers that have been taken, in order. -/
def registersTaken (events : List Event) : List Nat := events.filterMap Event.register?

theorem registersTaken_append (a b : List Event) :
    registersTaken (a ++ b) = registersTaken a ++ registersTaken b :=
  List.filterMap_append

theorem registersTaken_matched (seen : List Matched) : registersTaken (seen.map .matched) = [] := by
  induction seen with
  | nil => rfl
  | cons _ _ ih => exact ih

/-! ## Tasks that take registers in order -/

/-- The registers that the task takes are numbered in a row, from the number that the counter shows at
the beginning to the one that it shows in the end. -/
def TakesInOrder {σ α : Type} (counter : σ → Nat) (t : Task σ ParseError α) : Prop :=
  ∀ s, ∃ k, counter (t.run s).state = counter s + k ∧
    registersTaken (t.run s).events = List.range' (counter s) k

section

variable {σ α β : Type} {counter : σ → Nat} {t : Task σ ParseError α}
  {f : α → Task σ ParseError β}

/-- A task that takes no register leaves the counter where it is. -/
theorem takesInOrder_of_none (hcounter : ∀ s, counter (t.run s).state = counter s)
    (hnone : ∀ s, registersTaken (t.run s).events = []) : TakesInOrder counter t :=
  fun s => ⟨0, hcounter s, hnone s⟩

/-! Values and failures take no register, nor do events that do not report one, or changes that
leave the counter alone. What depends on the state takes registers in order if it does so whatever
the state is. -/

theorem takesInOrder_pure (a : α) : TakesInOrder counter (pure a : Task σ ParseError α) :=
  takesInOrder_of_none (fun _ => rfl) fun _ => rfl

theorem takesInOrder_fail (e : ParseError) :
    TakesInOrder counter (Task.fail e : Task σ ParseError α) :=
  takesInOrder_of_none (fun _ => rfl) fun _ => rfl

theorem takesInOrder_note {e : Event} (he : e.register? = none) :
    TakesInOrder counter (Task.note e : Task σ ParseError Unit) := by
  refine takesInOrder_of_none (fun _ => rfl) fun _ => ?_
  exact List.filterMap_eq_nil_iff.2 (List.forall_mem_singleton.2 he)

theorem takesInOrder_modify {h : σ → σ} (hcounter : ∀ s, counter (h s) = counter s) :
    TakesInOrder counter (Task.modify h : Task σ ParseError Unit) :=
  takesInOrder_of_none hcounter fun _ => rfl

theorem TakesInOrder.get_bind {h : σ → Task σ ParseError β} (hh : ∀ s, TakesInOrder counter (h s)) :
    TakesInOrder counter (Task.get >>= h) :=
  fun s => hh s s

/-- The second of two tasks goes on where the first one has left the counter, also if the first one has
taken registers and failed. -/
theorem TakesInOrder.bind (ht : TakesInOrder counter t) (hf : ∀ a, TakesInOrder counter (f a)) :
    TakesInOrder counter (t >>= f) := by
  intro s
  obtain ⟨k, hcounter, htaken⟩ := ht s
  rw [Task.run_bind]
  cases (t.run s).result with
  | error e => exact ⟨k, hcounter, htaken⟩
  | ok a =>
    obtain ⟨k', hcounter', htaken'⟩ := hf a (t.run s).state
    refine ⟨k + k', ?_, ?_⟩
    · show counter ((f a).run (t.run s).state).state = _
      omega
    · -- the second row begins where the first one ends
      show registersTaken (_ ++ _) = _
      rw [registersTaken_append, htaken, htaken', hcounter]
      exact List.range'_append_1

end

/-! ## In the scope of a rule -/

namespace Scope

/-- An expression that asks for a register gives the number of the one that it takes. -/
theorem takesInOrder_evaluate (e : Expression) : TakesInOrder Scope.registers (evaluate e) := by
  cases e with
  | newRegister => exact fun s => ⟨1, rfl, rfl⟩
  | literal text => exact takesInOrder_pure text
  | read ref => exact .get_bind fun s => takesInOrder_of_none (fun _ => rfl) fun _ => rfl

theorem takesInOrder_emit (line : String) : TakesInOrder Scope.registers (emit line) := by
  refine takesInOrder_of_none (fun s => ?_) fun s => ?_
  · rw [run_emit]
  · rw [run_emit]
    rfl

/-- An assignment takes no register beyond those of its expression. -/
theorem takesInOrder_assignTo (ref : AttributeRef) (value : String) :
    TakesInOrder Scope.registers (assignTo ref value) := by
  refine .get_bind fun s => ?_
  cases s.rule.slot? ref.target with
  | none => exact takesInOrder_fail _
  | some slot => exact takesInOrder_modify fun s => by cases slot <;> rfl

/-- Whatever is done in a scope takes registers in order. -/
theorem composes_takesInOrder : Composes (TakesInOrder Scope.registers) where
  nothing := takesInOrder_pure
  bind := TakesInOrder.bind
  evaluate := takesInOrder_evaluate
  emit := takesInOrder_emit
  assignTo := takesInOrder_assignTo
  lhs := .get_bind fun s => takesInOrder_pure s.lhs

/-- The registers that are taken are as many as the expressions that ask for one among those that have
been evaluated. -/
theorem registersTaken_of_effects {α : Type} {task : Task Scope ParseError α} {c : Scope}
    {statements : List Statement} {evaluated : List Expression}
    (ht : TakesInOrder Scope.registers task)
    (heffects : c.Effects statements evaluated (task.run c).state) :
    registersTaken (task.run c).events =
      List.range' c.registers (evaluated.count .newRegister) := by
  obtain ⟨k, hcounter, htaken⟩ := ht c
  have hregisters := heffects.registers
  obtain rfl : k = evaluated.count .newRegister := by omega
  exact htaken

/-- An expression takes a register if it asks for one, and the counter goes on by one. -/
theorem registersTaken_evaluate (e : Expression) (c : Scope) :
    registersTaken ((evaluate e).run c).events = List.range' c.registers ([e].count .newRegister) ∧
      ((evaluate e).run c).state.registers = c.registers + [e].count .newRegister := by
  cases e with
  | newRegister => exact ⟨rfl, rfl⟩
  | literal text => exact ⟨rfl, rfl⟩
  | read ref => exact ⟨rfl, rfl⟩

/-- A guard takes a register for each of its two sides that asks for one, but none for the right side if
the left one has no value. -/
theorem registersTaken_test (guard : Condition) (c : Scope) :
    ∃ evaluated, evaluated <+: [guard.left, guard.right] ∧
      (∀ holds, ((test guard).run c).result = .ok holds → evaluated = [guard.left, guard.right]) ∧
      registersTaken ((test guard).run c).events =
        List.range' c.registers (evaluated.count .newRegister) := by
  obtain ⟨hleft, hcounter⟩ := registersTaken_evaluate guard.left c
  unfold test
  rw [Task.run_bind]
  cases hresult : ((evaluate guard.left).run c).result with
  -- the right side is not looked at
  | error e => exact ⟨[guard.left], ⟨[guard.right], rfl⟩, nofun, hleft⟩
  | ok left =>
    have hright := (registersTaken_evaluate guard.right ((evaluate guard.left).run c).state).1
    have hboth : ([guard.left] ++ [guard.right]).count .newRegister =
        [guard.left].count .newRegister + [guard.right].count .newRegister := List.count_append
    rw [List.singleton_append] at hboth
    refine ⟨[guard.left, guard.right], List.prefix_rfl, fun _ _ => rfl, ?_⟩
    dsimp only
    rw [Task.run_bind, registersTaken_append, hleft, hboth]
    -- the comparison itself notes nothing
    rw [← List.range'_append_1, ← hcounter, ← hright]
    cases ((evaluate guard.right).run ((evaluate guard.left).run c).state).result with
    | error e => rfl
    | ok right =>
      show _ ++ registersTaken (_ ++ []) = _
      rw [List.append_nil]

/-- An action takes a register for each expression that asks for one among those that it evaluates, be
it carried out to the end or not, and no others. -/
theorem registersTaken_execute (statements : List Statement) (c : Scope) :
    ∃ executed evaluated, executed <+: statements ∧
      c.Effects executed evaluated ((execute statements).run c).state ∧
      registersTaken ((execute statements).run c).events =
        List.range' c.registers (evaluated.count .newRegister) := by
  have htakes := composes_takesInOrder.execute statements
  rcases execute_cases statements c with
    ⟨lines, c', events, hcarries, hrun⟩ |
    ⟨executed, st, rest, lines, c₁, last, e, c', events, rfl, hcarries, hstops, hrun⟩
  · have heffects := hcarries.effects
    have hstate : ((execute statements).run c).state = c' := congrArg Completed.state hrun
    rw [← hstate] at heffects
    exact ⟨statements, _, List.prefix_rfl, heffects, registersTaken_of_effects htakes heffects⟩
  · -- the statement that fails may have taken a register before
    have heffects := hcarries.effects.trans hstops.effects
    have hstate : ((execute (executed ++ st :: rest)).run c).state = c' :=
      congrArg Completed.state (hrun rest)
    rw [← hstate, List.append_nil] at heffects
    exact ⟨executed, _, List.prefix_append _ _, heffects, registersTaken_of_effects htakes heffects⟩

end Scope

/-! ## On a session -/

/-- A scope takes the counter over from the session.  What happens in it happens in the session, and
the session goes on with its counter, however it is left. -/
theorem Session.inScope_eq_of_ok {s : Session} {rule : Rule} {c : Scope} (h : s.scope rule = .ok c) :
    c.registers = s.registers ∧ ∀ {α : Type} (task : Task Scope ParseError α),
      ((inScope rule task).run s).events = (task.run c).events ∧
        ((inScope rule task).run s).result = (task.run c).result ∧
        ((inScope rule task).run s).state.registers = (task.run c).state.registers := by
  obtain ⟨-, -, hscope⟩ := Session.scope_eq_ok_iff.1 h
  refine ⟨congrArg Scope.registers hscope, fun task => ?_⟩
  rw [Session.run_inScope, h]
  exact ⟨rfl, rfl, rfl⟩

/-- What takes registers in order in a scope does so in the session. -/
theorem takesInOrder_inScope {α : Type} {task : Task Scope ParseError α}
    (ht : TakesInOrder Scope.registers task) (rule : Rule) :
    TakesInOrder Session.registers (Session.inScope rule task) := by
  intro s
  cases hscope : s.scope rule with
  | error e =>
    rw [Session.run_inScope, hscope]
    exact ⟨0, rfl, rfl⟩
  | ok c =>
    obtain ⟨hstart, hinside⟩ := Session.inScope_eq_of_ok hscope
    obtain ⟨hevents, -, hcounter⟩ := hinside task
    rw [hevents, hcounter, ← hstart]
    exact ht c

namespace Grammar

/-- Whatever is done on a session takes registers in order. -/
theorem composes_takesInOrder : Session.Composes (TakesInOrder Session.registers) where
  nothing := takesInOrder_pure
  fail e _ := takesInOrder_fail e
  bind := TakesInOrder.bind
  get_bind hf _ := .get_bind hf
  rearrange h := takesInOrder_modify h.registers
  guard rule c := takesInOrder_inScope (Scope.composes_takesInOrder.test c) rule
  action rule := takesInOrder_inScope (Scope.composes_takesInOrder.act rule) rule
  guardTested _ _ _ := takesInOrder_note rfl
  reduced _ _ := takesInOrder_note rfl
  wentTo _ := takesInOrder_note rfl
  accepted := takesInOrder_note rfl

theorem takesInOrder_shift (state : Nat) (t : Terminal) :
    TakesInOrder Session.registers (shift state t) :=
  (takesInOrder_note rfl).bind fun _ => takesInOrder_modify fun _ => rfl

theorem takesInOrder_ask (source : Source) : TakesInOrder Session.registers (ask source) := by
  refine takesInOrder_of_none (fun s => ?_) fun s => ?_
  · rw [run_ask]
    cases (source s.stats.terminals).item <;> rfl
  · rw [run_ask]
    cases (source s.stats.terminals).item <;> exact registersTaken_matched _

/-- A step of the driver takes registers in order. -/
theorem takesInOrder_step (g : Grammar) (source : Source) (t : Terminal) :
    TakesInOrder Session.registers (g.step source t) := by
  refine .get_bind fun s => (takesInOrder_note rfl).bind fun _ => ?_
  cases g.terminalId? t.name with
  | none => exact takesInOrder_fail _
  | some id =>
    exact composes_takesInOrder.carryOut g source (takesInOrder_shift · t) (takesInOrder_ask source) _ _

end Grammar

/-! ## Over a whole parse -/

/-- As many registers have been taken as the counter shows, and they are numbered from 0 on. -/
def Configuration.HasNumbered (c : Configuration) : Prop :=
  registersTaken c.events = List.range c.session.registers

namespace Configuration

variable {c : Configuration}

/-- A task that takes registers in order goes on with the numbering. -/
theorem hasNumbered_after {log : List Event} {s : Session}
    {task : Task Session ParseError Grammar.Progress}
    (hlog : registersTaken log.reverse = List.range s.registers)
    (ht : TakesInOrder Session.registers task) : (after log (task.run s)).HasNumbered := by
  obtain ⟨k, hcounter, htaken⟩ := ht s
  unfold HasNumbered
  rw [events_after, registersTaken_append, hlog, htaken]
  show _ = List.range (task.run s).state.registers
  rw [hcounter, List.range_eq_range', List.range_eq_range', ← List.range'_append_1, Nat.zero_add]

theorem hasNumbered_initial (source : Source) (output : Sink) :
    (initial source output).HasNumbered :=
  hasNumbered_after rfl (Grammar.takesInOrder_ask source)

/-- Each step goes on with the numbering. -/
theorem HasNumbered.next (g : Grammar) (source : Source) (h : c.HasNumbered) :
    (c.next g source).HasNumbered := by
  cases hstatus : c.status with
  | ended r => rwa [next_of_ended g source c r hstatus]
  | reading t =>
    rw [next_of_reading hstatus]
    exact hasNumbered_after h (Grammar.takesInOrder_step g source t)

end Configuration

/-- Different numbers are written differently. -/
theorem toString_injective {m n : Nat} (h : toString m = toString n) : m = n := by
  have hdigits : Nat.toDigits 10 m = Nat.toDigits 10 n := String.ofList_injective h
  have hvalue := congrArg (Nat.ofDigitChars 10 · 0) hdigits
  rwa [Nat.ofDigitChars_toDigits (by decide) (by decide),
    Nat.ofDigitChars_toDigits (by decide) (by decide)] at hvalue

/-- An expression that asks for a register has as its value the number of the one that it takes, and no
other expression takes any.  So a guard and an action take one for each expression that asks for one among
those that they evaluate, from where the counter of their scope stands.  That is the counter of the
session; the session records what happens in the scope and takes the counter back, however the scope is
left.

Over a whole parse, however it goes and however long, the values of the expressions that ask for a
register are therefore 0, 1, 2 and so on, one for each of them. -/
theorem parse_numbers_registers (g : Grammar) (source : Source) (output : Sink) (n : Nat) :
    (∀ c : Scope, (Scope.evaluate .newRegister).run c =
        ⟨[.registerIssued c.registers], { c with registers := c.registers + 1 },
          .ok (toString c.registers)⟩) ∧
      (∀ e : Expression, e ≠ .newRegister → ∀ c,
        registersTaken ((Scope.evaluate e).run c).events = [] ∧
          ((Scope.evaluate e).run c).state.registers = c.registers) ∧
      (∀ guard c, ∃ evaluated, evaluated <+: [guard.left, guard.right] ∧
        (∀ holds, ((Scope.test guard).run c).result = .ok holds →
          evaluated = [guard.left, guard.right]) ∧
        registersTaken ((Scope.test guard).run c).events =
          List.range' c.registers (evaluated.count .newRegister)) ∧
      (∀ statements c, ∃ executed evaluated, executed <+: statements ∧
        c.Effects executed evaluated ((Scope.execute statements).run c).state ∧
        registersTaken ((Scope.execute statements).run c).events =
          List.range' c.registers (evaluated.count .newRegister)) ∧
      (∀ (s : Session) (rule : Rule),
        (∀ c, s.scope rule = .ok c → c.registers = s.registers ∧
          ∀ (α : Type) (task : Task Scope ParseError α),
            ((Session.inScope rule task).run s).events = (task.run c).events ∧
              ((Session.inScope rule task).run s).result = (task.run c).result ∧
              ((Session.inScope rule task).run s).state.registers = (task.run c).state.registers) ∧
        ∀ e, s.scope rule = .error e → ∀ (α : Type) (task : Task Scope ParseError α),
          (Session.inScope rule task).run s = ⟨[], s, .error e⟩) ∧
      (registersTaken (g.parse source output n).events).map toString =
        (List.range (g.parse source output n).session.registers).map toString ∧
      ((registersTaken (g.parse source output n).events).map toString).Nodup := by
  have hnumbered : (g.parse source output n).HasNumbered :=
    Configuration.run_induction (fun _ h => h.next g source) n
      (Configuration.hasNumbered_initial source output)
  refine ⟨fun c => rfl, fun e he c => ?_, Scope.registersTaken_test, Scope.registersTaken_execute,
    fun s rule => ⟨fun c hscope => ?_, fun e hscope α task => ?_⟩, congrArg _ hnumbered, ?_⟩
  · cases e with
    | newRegister => exact absurd rfl he
    | literal text => exact ⟨rfl, rfl⟩
    | read ref => exact ⟨rfl, rfl⟩
  · obtain ⟨hstart, hinside⟩ := Session.inScope_eq_of_ok hscope
    exact ⟨hstart, fun _ task => hinside task⟩
  · rw [Session.run_inScope, hscope]
  · -- the numbers are all different, and so is how they are written
    rw [hnumbered]
    exact List.nodup_range.map fun _ _ h => toString_injective h

/-- Rules whose first one has a guard that takes two registers and does not hold. -/
def spending : List Rule :=
  [ { lhs := ⟨"S", none⟩
      rhs := [⟨"x", none⟩]
      condition := some ⟨.newRegister, .newRegister⟩ },
    { lhs := ⟨"S", none⟩
      rhs := [⟨"x", none⟩]
      action := some [.emit [.newRegister, .literal " ", .newRegister]] } ]

/-- The action goes on where the guard has left off. -/
theorem spending_numbers_registers : ∃ g, (Grammar.build spending).result = .ok g ∧
    (registersTaken (g.parse (.ofList [.ok { name := "x" }, .ok { name := endName }]) {} 4).events).map
        toString = ["0", "1", "2", "3"] ∧
    (g.parse (.ofList [.ok { name := "x" }, .ok { name := endName }]) {} 4).written =
      Sink.lineBytes "2 3" := by
  have hrun : (Grammar.build spending).result.map (fun g =>
      ((g.parse (.ofList [.ok { name := "x" }, .ok { name := endName }]) {} 4).session.registers,
        (g.parse (.ofList [.ok { name := "x" }, .ok { name := endName }]) {} 4).written)) =
      .ok (4, Sink.lineBytes "2 3") := by
    decide +kernel
  cases hbuild : (Grammar.build spending).result with
  | error e =>
    rw [hbuild] at hrun
    exact nomatch hrun
  | ok g =>
    rw [hbuild] at hrun
    obtain ⟨hcounter, hwritten⟩ := Prod.mk.inj (Except.ok.inj hrun)
    obtain ⟨-, -, -, -, -, htaken, -⟩ := parse_numbers_registers g
      (.ofList [.ok { name := "x" }, .ok { name := endName }]) {} 4
    rw [hcounter] at htaken
    exact ⟨g, rfl, htaken.trans (by decide), hwritten⟩

end GuardedGrammar
