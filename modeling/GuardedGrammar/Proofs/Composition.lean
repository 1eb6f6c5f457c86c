/-
  What holds of whatever is done step by step.

  A guard evaluates expressions; an action evaluates expressions, writes lines and assigns values.  To
  choose a reduction is to test guards, and to reduce is to carry an action out and to rearrange the
  stack.  So a property of tasks that holds of these single things, and of two tasks done one after the
  other if it holds of both, holds of all that is composed of them: of guards and actions
  (`Scope.Composes`), and of choosing and reducing (`Session.Composes`).

  Each proof about all that a parse can do needs to look at the single things only.
-/
import GuardedGrammar.Parse.Step

namespace GuardedGrammar

/-! ## In the scope of a rule -/

namespace Scope

/-- The property holds of the single things that guards and actions do, and of tasks that are done one
after the other. -/
structure Composes (P : ∀ {α : Type}, Task Scope ParseError α → Prop) : Prop where
  nothing {α : Type} (a : α) : P (pure a)
  bind {α β : Type} {t : Task Scope ParseError α} {f : α → Task Scope ParseError β} :
    P t → (∀ a, P (f a)) → P (t >>= f)
  evaluate (e : Expression) : P (evaluate e)
  emit (line : String) : P (emit line)
  assignTo (ref : AttributeRef) (value : String) : P (assignTo ref value)
  lhs : P (Task.get >>= fun s => pure s.lhs)

namespace Composes

variable {P : ∀ {α : Type}, Task Scope ParseError α → Prop}

/-! A guard evaluates both its sides and compares them, and a statement evaluates its expressions
and then writes a line or assigns a value. So all of a guard and of an action is composed of the few
steps above. Rows of expressions and of statements go by induction. -/

theorem test (h : Composes P) (c : Condition) : P (Scope.test c) :=
  h.bind (h.evaluate c.left) fun _ => h.bind (h.evaluate c.right) fun _ => h.nothing _

theorem evaluateAll (h : Composes P) (parts : List Expression) : P (Scope.evaluateAll parts) := by
  induction parts with
  | nil => exact h.nothing _
  | cons e rest ih => exact h.bind (h.evaluate e) fun _ => h.bind ih fun _ => h.nothing _

theorem perform (h : Composes P) (st : Statement) : P (Scope.perform st) := by
  cases st with
  | emit parts => exact h.bind (h.evaluateAll parts) h.emit
  | assign destination value => exact h.bind (h.evaluate value) (h.assignTo destination)

theorem execute (h : Composes P) (statements : List Statement) : P (Scope.execute statements) := by
  induction statements with
  | nil => exact h.nothing _
  | cons st rest ih => exact h.bind (h.perform st) fun _ => ih

theorem act (h : Composes P) (rule : Rule) : P (Grammar.act rule) :=
  h.bind (h.execute _) fun _ => h.lhs

end Composes

end Scope

/-! ## On a session -/

namespace Session

/-- Either the scope of a rule cannot be set up, and nothing happens, or the task runs in it and its
registers and output are taken over. -/
theorem run_inScope {α : Type} (rule : Rule) (task : Task Scope ParseError α) (s : Session) :
    (inScope rule task).run s =
      match s.scope rule with
      | .error e => ⟨[], s, .error e⟩
      | .ok c => ⟨(task.run c).events, s.afterScope (task.run c).state, (task.run c).result⟩ := rfl

/-- A change of a session that leaves the counts of what comes from the source, the registers and the
output alone, and does not look at the output. -/
structure Rearranges (h : Session → Session) : Prop where
  shifts (s : Session) : (h s).stats.shifts = s.stats.shifts
  terminals (s : Session) : (h s).stats.terminals = s.stats.terminals
  registers (s : Session) : (h s).registers = s.registers
  output (s : Session) (output : Sink) : h { s with output } = { h s with output }

theorem Rearranges.output_eq {h : Session → Session} (hh : Rearranges h) (s : Session) :
    (h s).output = s.output := by
  have hsame : h s = { h s with output := s.output } := hh.output s s.output
  rw [hsame]

/-- The property holds of the single things that are done in order to choose a reduction and to carry it
out, and of tasks that are done one after the other. -/
structure Composes (P : ∀ {α : Type}, Task Session ParseError α → Prop) : Prop where
  nothing {α : Type} (a : α) : P (pure a)
  /-- That a terminal is unknown has been found out before. -/
  fail {α : Type} (e : ParseError) : (∀ name index, e ≠ .unknownTerminal name index) →
    P (Task.fail e : Task Session ParseError α)
  bind {α β : Type} {t : Task Session ParseError α} {f : α → Task Session ParseError β} :
    P t → (∀ a, P (f a)) → P (t >>= f)
  /-- What is looked at are the stack and the counts. -/
  get_bind {β : Type} {f : Session → Task Session ParseError β} : (∀ s, P (f s)) →
    (∀ s output, f { s with output } = f s) → P (Task.get >>= f)
  rearrange {h : Session → Session} : Rearranges h → P (Task.modify h)
  guard (rule : Rule) (c : Condition) : P (inScope rule (Scope.test c))
  action (rule : Rule) : P (inScope rule (Grammar.act rule))
  guardTested (index : Nat) (c : Condition) (holds : Bool) : P (Task.note (.guardTested index c holds))
  reduced (index : Nat) (rule : Rule) : P (Task.note (.reduced index rule))
  wentTo (state : Nat) : P (Task.note (.wentTo state))
  accepted : P (Task.note .accepted)

namespace Composes

variable {P : ∀ {α : Type}, Task Session ParseError α → Prop}

/-- To test a guard is to count the test, to evaluate the guard in the scope of its rule, and to
note the outcome. -/
theorem testGuard (h : Composes P) (g : Grammar) (index : Nat) (guard : Condition) :
    P (g.testGuard index guard) := by
  refine h.bind (h.rearrange ⟨fun _ => rfl, fun _ => rfl, fun _ => rfl, fun _ _ => rfl⟩) fun _ => ?_
  refine h.bind (h.guard _ guard) fun holds => ?_
  exact h.bind (h.guardTested index guard holds) fun _ => h.nothing holds

/-- By induction on the candidates: a rule without a guard and one whose guard holds end the
search. -/
theorem firstApplicable (h : Composes P) (g : Grammar) (indices : List Nat) :
    P (g.firstApplicable indices) := by
  induction indices with
  | nil => exact h.nothing none
  | cons index rest ih =>
    -- the first of the candidates decides, unless its guard is rejected
    unfold Grammar.firstApplicable
    cases (g.rule index).condition with
    | none => exact h.nothing (some index)
    | some guard =>
      refine h.bind (h.testGuard g index guard) fun holds => ?_
      cases holds with
      | true => exact h.nothing (some index)
      | false => exact ih

/-- Choosing fails if the cell is no choice at all, or if no candidate is left. -/
theorem select (h : Composes P) (g : Grammar) (c : Cell) (state : Nat) (terminal : String) :
    P (g.select c state terminal) := by
  unfold Grammar.select
  cases Grammar.reductions? c with
  | none => exact h.fail _ nofun
  | some reductions =>
    refine h.bind (h.firstApplicable g _) fun chosen => ?_
    cases chosen with
    | none => exact h.fail _ nofun
    | some index => exact h.nothing index

/-- What is pushed depends on the stack below, which is looked at. -/
theorem pushLhs (h : Composes P) (g : Grammar) (index : Nat) (attributes : Attributes) :
    P (g.pushLhs index attributes) := by
  refine h.get_bind (fun s => ?_) fun _ _ => rfl
  dsimp only
  cases g.tables.goto? s.state (g.automaton.lhsOf index) with
  | none => exact h.fail _ nofun
  | some next =>
    refine h.bind (h.wentTo next) fun _ => ?_
    exact h.rearrange ⟨fun _ => rfl, fun _ => rfl, fun _ => rfl, fun _ _ => rfl⟩

/-- To reduce is to act, to take the right-hand side off the stack and to push the left-hand
side. -/
theorem reduce (h : Composes P) (g : Grammar) (index : Nat) : P (g.reduce index) := by
  refine h.bind (h.reduced index _) fun _ => h.bind (h.action _) fun attributes => ?_
  refine h.bind (h.rearrange ⟨fun _ => rfl, fun _ => rfl, fun _ => rfl, fun _ _ => rfl⟩) fun _ => ?_
  exact h.pushLhs g index attributes

/-- An input is accepted if one symbol is left on top of the bottom. -/
theorem conclude (h : Composes P) : P Grammar.conclude := by
  refine h.bind h.accepted fun _ => h.get_bind (fun s => ?_) fun _ _ => rfl
  dsimp only
  split
  · exact h.nothing _
  · exact h.fail _ nofun

end Composes

end Session

end GuardedGrammar
