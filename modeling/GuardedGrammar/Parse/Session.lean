/-
  The state of a parse.

  A session holds the stack, the number of the next register, counts of what has been done, and the
  output.  Terminals come from a source, which is asked for one after the other; what it answers may
  depend on how often it has been asked, and on nothing else.
-/
import GuardedGrammar.Grammar.Basic
import GuardedGrammar.Parse.Scope

namespace GuardedGrammar

/-! ## Where terminals come from -/

/-- The answer of a source: the texts that were matched on the way to it, and a terminal or an error, or
nothing if there are no more. -/
structure Reply where
  seen : List Matched := []
  item : Option (Except ParseError Terminal)

/-- The answers of a source, by the number of times it has been asked before. -/
abbrev Source := Nat → Reply

namespace Source

/-- The items of a list, and then nothing. -/
def ofList (items : List (Except ParseError Terminal)) : Source := fun i => { item := items[i]? }

end Source

/-! ## Sessions -/

/-- How much has been done. -/
structure Stats where
  /-- How often the source has given a terminal or an error. -/
  terminals : Nat := 0
  shifts : Nat := 0
  reductions : Nat := 0
  /-- How many guards have been tested. -/
  guards : Nat := 0
deriving DecidableEq, Repr

/-- The state of a parse; the stack has its top first. -/
structure Session where
  stack : List StackEntry
  registers : Nat := 0
  stats : Stats := {}
  output : Sink := {}
deriving DecidableEq

namespace Session

/-- What lies at the bottom of every stack. -/
def bottom : StackEntry := { state := 0, symbol := startName }

/-- Nothing has been read. -/
def initial (output : Sink) : Session := { stack := [bottom], output }

/-- The state of the automaton. -/
def state (s : Session) : Nat := StackEntry.topState s.stack

/-- Puts an entry on top. -/
def push (s : Session) (entry : StackEntry) : Session := { s with stack := entry :: s.stack }

/-- Takes entries off the top. -/
def pop (s : Session) (n : Nat) : Session := { s with stack := s.stack.drop n }

/-- Changes the counts. -/
def count (s : Session) (f : Stats → Stats) : Session := { s with stats := f s.stats }

/-! ## Steps on a session -/

/-- Asks the source for the next terminal. -/
def pull (source : Source) : Task Session ParseError Terminal := fun s =>
  let reply := source s.stats.terminals
  let seen := reply.seen.map .matched
  match reply.item with
  | none => ⟨seen, s, .error (.failed .endOfInput)⟩
  | some item => ⟨seen, s.count fun c => { c with terminals := c.terminals + 1 }, item⟩

/-- The top of the stack, bound to a rule. The entry at the bottom is never part of it. -/
def scope (s : Session) (rule : Rule) : Except ParseError Scope :=
  if s.stack.length ≤ rule.rhs.length then .error (.inconsistent (.shallowStack rule))
  else
    (Scope.bind rule (s.stack.take rule.rhs.length).reverse s.registers s.output).mapError
      .inconsistent

/-- The session after something has been done in a scope on its top. -/
def afterScope (s : Session) (c : Scope) : Session :=
  { s with
    stack := c.entries.reverse ++ s.stack.drop c.rule.rhs.length
    registers := c.registers
    output := c.output }

/-- Does something in the scope of a rule. -/
def inScope {α : Type} (rule : Rule) (t : Task Scope ParseError α) : Task Session ParseError α :=
  fun s =>
    match s.scope rule with
    | .error e => ⟨[], s, .error e⟩
    | .ok c =>
      let done := t.run c
      ⟨done.events, s.afterScope done.state, done.result⟩

end Session

end GuardedGrammar
