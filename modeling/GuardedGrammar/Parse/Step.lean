/-
  One step of a parse.

  The terminal that comes and the state of the automaton select a cell of the table.  A shift takes the
  terminal and asks for the next; a reduction leaves it where it is.  Where a cell has several
  reductions, those with longer right-hand sides are considered first, and of equally long ones those
  declared first; the first one that has no guard, or whose guard holds, is carried out.
-/
import GuardedGrammar.Parse.Session

namespace GuardedGrammar

namespace Grammar

/-- A rule by its number. -/
def rule (g : Grammar) (index : Nat) : Rule := (g.rules[index]?).getD default

/-! ## Choosing a reduction -/

/-- Whether a reduction is considered before another. -/
def precedes (g : Grammar) (p q : Nat) : Bool :=
  let lengthOf := Cell.lengthOf g.automaton.productions
  decide (lengthOf q < lengthOf p) || (lengthOf p == lengthOf q && decide (p ≤ q))

/-- Puts a reduction at its place among others. -/
def rank (g : Grammar) (p : Nat) : List Nat → List Nat
  | [] => [p]
  | q :: rest => if g.precedes p q then p :: q :: rest else q :: rank g p rest

/-- Reductions in the order in which they are considered. -/
def ranked (g : Grammar) (reductions : List Nat) : List Nat := reductions.foldr g.rank []

/-- The reductions of a cell, if there is nothing else in it. -/
def reductions? (c : Cell) : Option (List Nat) := c.mapM Action.reduction?

/-- Tests the guard of a rule. -/
def testGuard (g : Grammar) (index : Nat) (guard : Condition) : Task Session ParseError Bool := do
  Task.modify fun s => s.count fun c => { c with guards := c.guards + 1 }
  let holds ← Session.inScope (g.rule index) (Scope.test guard)
  Task.note (.guardTested index guard holds)
  pure holds

/-- The first reduction that has no guard or whose guard holds, if there is one. -/
def firstApplicable (g : Grammar) : List Nat → Task Session ParseError (Option Nat)
  | [] => pure none
  | index :: rest =>
    match (g.rule index).condition with
    | none => pure (some index)
    | some guard => do
      if ← g.testGuard index guard then pure (some index) else g.firstApplicable rest

/-- Chooses a reduction of a cell. -/
def select (g : Grammar) (c : Cell) (state : Nat) (terminal : String) :
    Task Session ParseError Nat :=
  match reductions? c with
  | none => Task.fail (.inconsistent (.unresolvedCell state terminal))
  | some reductions => do
    match ← g.firstApplicable (g.ranked reductions) with
    | some index => pure index
    | none => Task.fail (.failed (.noSatisfiedReduce state terminal))

/-! ## Shifting and reducing -/

/-- Pushes a terminal with a state. -/
def shift (state : Nat) (t : Terminal) : Task Session ParseError Unit := do
  Task.note (.shifted state)
  Task.modify fun s =>
    (s.push ⟨state, t.name, t.attributes⟩).count fun c => { c with shifts := c.shifts + 1 }

/-- Carries out the action of a rule; the result is the attributes of the left-hand side. -/
def act (rule : Rule) : Task Scope ParseError Attributes := do
  Scope.execute (rule.action.getD [])
  pure (← Task.get).lhs

/-- Pushes the left-hand side of a rule, with the state to go to. -/
def pushLhs (g : Grammar) (index : Nat) (attributes : Attributes) : Task Session ParseError Unit := do
  let state := (← Task.get).state
  let name := (g.rule index).lhs.name
  match g.tables.goto? state (g.automaton.lhsOf index) with
  | none => Task.fail (.inconsistent (.missingGoto state name))
  | some next =>
    Task.note (.wentTo next)
    Task.modify fun s =>
      (s.push ⟨next, name, attributes⟩).count fun c => { c with reductions := c.reductions + 1 }

/-- Replaces the right-hand side of a rule on the stack by the left-hand side. -/
def reduce (g : Grammar) (index : Nat) : Task Session ParseError Unit := do
  let rule := g.rule index
  Task.note (.reduced index rule)
  let attributes ← Session.inScope rule (act rule)
  Task.modify fun s => s.pop rule.rhs.length
  g.pushLhs index attributes

/-! ## A step -/

/-- How a parse goes on. -/
inductive Progress where
  /-- The input is a sentence. -/
  | accepted
  /-- The terminal is to be dealt with next. -/
  | reading (t : Terminal)
deriving DecidableEq

/-- Ends a parse; there has to be one symbol on the stack. -/
def conclude : Task Session ParseError Progress := do
  Task.note .accepted
  let height := (← Task.get).stack.length
  if height = 2 then pure .accepted else Task.fail (.inconsistent (.acceptedStack height))

/-- Does what a cell says. -/
def carryOut (g : Grammar) (source : Source) (c : Cell) (state : Nat) (t : Terminal) :
    Task Session ParseError Progress :=
  match c with
  | [] => Task.fail (.failed (.noAction state t.name))
  | [.accept] => conclude
  | [.shift next] => do
    shift next t
    .reading <$> Session.pull source
  | _ => do
    let index ← g.select c state t.name
    g.reduce index
    pure (.reading t)

/-- Deals with a terminal. -/
def step (g : Grammar) (source : Source) (t : Terminal) : Task Session ParseError Progress := do
  let s ← Task.get
  Task.note (.stepBegun s.stack t.name)
  match g.terminalId? t.name with
  | none => Task.fail (.unknownTerminal t.name (s.stats.terminals - 1))
  | some id => g.carryOut source (g.cell s.state id) s.state t

end Grammar

end GuardedGrammar
