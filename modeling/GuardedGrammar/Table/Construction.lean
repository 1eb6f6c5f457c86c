/-
  The tables of an automaton.

  The row of a state is filled item by item.  An item that waits for a symbol says where reading it
  leads; an item that has been read to its end says what is reduced, and for which terminals: those
  in the FOLLOW set of its left-hand side.  When the start production has been read to its end, the
  end of the input is accepted.  Items come in the order of productions, so of the reductions without
  a guard that are equally long a cell keeps the last.
-/
import GuardedGrammar.Automaton.Collection
import GuardedGrammar.Automaton.Follow
import GuardedGrammar.BuildError
import GuardedGrammar.Journal.Traced
import GuardedGrammar.SymbolTable

namespace GuardedGrammar

/-- What the tables are made of: the productions, the names of their symbols, how many of the symbols
are nonterminals, the FOLLOW sets of these, and the states. -/
structure Automaton where
  productions : List Production
  names : SymbolTable
  nonterminals : Nat
  follow : FollowSets
  states : List ItemSet
deriving DecidableEq

namespace Automaton

/-- The name of a symbol; symbols without one are shown by a question mark. -/
def nameOf (a : Automaton) (symbol : Nat) : String := (a.names.name? symbol).getD "?"

/-- How many terminals there are. -/
def terminals (a : Automaton) : Nat := a.names.size - a.nonterminals

/-- The column of a terminal. -/
def column (a : Automaton) (terminal : Nat) : Nat := terminal - a.nonterminals

/-- The last terminal, which ends every input. -/
def endMarker (a : Automaton) : Nat := a.names.size - 1

/-- The state that reading a symbol leads to from the given one. -/
def target? (a : Automaton) (items : ItemSet) (symbol : Nat) : Option Nat :=
  a.states.idxOf? (successor a.productions a.nonterminals items symbol)

/-! ## Filling a row -/

/-- Enters the reduction of a production for one terminal. -/
def enterReduction (a : Automaton) (p : Nat) (row : Row) (terminal : Nat) : Row :=
  { row with actions := row.actions.modify (a.column terminal) (·.receive a.productions p) }

/-- The reduction that has to give way when one is entered for a terminal. -/
def displaced (a : Automaton) (p : Nat) (row : Row) (terminal : Nat) : List Event :=
  match Cell.admission a.productions ((row.actions[a.column terminal]?).getD []) p with
  | .instead old => [.reductionReplaced p old]
  | _ => []

/-- Enters the reduction of a production for terminals in turn. -/
def enterReductions (a : Automaton) (p : Nat) : List Nat → Row → Traced BuildError Row
  | [], row => pure row
  | terminal :: rest, row =>
    let entered := a.enterReductions p rest (a.enterReduction p row terminal)
    ⟨a.displaced p row terminal ++ entered.events, entered.result⟩

/-- Enters where a terminal leads. -/
def enterShift (a : Automaton) (terminal target : Nat) (row : Row) : Row :=
  { row with actions := row.actions.modify (a.column terminal) (·.enter (.shift target)) }

/-- Enters where a nonterminal leads; it cannot lead to two places. -/
def enterGoto (a : Automaton) (state nonterminal target : Nat) (row : Row) :
    Except BuildError Row :=
  match (row.gotos[nonterminal]?).bind id with
  | none => .ok { row with gotos := row.gotos.set nonterminal (some target) }
  | some first =>
    if first = target then .ok row
    else .error (.duplicateGoto state (a.nameOf nonterminal) first target)

/-- Enters that the end of the input is accepted. -/
def enterAcceptance (a : Automaton) (row : Row) : Row :=
  { row with actions := row.actions.modify (a.column a.endMarker) (·.enter .accept) }

/-- The left-hand side of a production. -/
def lhsOf (a : Automaton) (p : Nat) : Nat := (a.productions[p]?.map (·.lhs)).getD 0

/-- Enters what an item of a state says. -/
def enterItem (a : Automaton) (state : Nat) (items : ItemSet) (row : Row) (item : Item) :
    Traced BuildError Row :=
  match item.observed? a.productions with
  | none =>
    if item.production = startProduction then pure (a.enterAcceptance row)
    else a.enterReductions item.production (FollowSets.of a.follow (a.lhsOf item.production)).toList row
  | some symbol =>
    match a.target? items symbol with
    | none => .fail (.inconsistent (.unknownState state (a.nameOf symbol)))
    | some target =>
      if symbol < a.nonterminals then .ofExcept (a.enterGoto state symbol target row)
      else pure (a.enterShift symbol target row)

/-- Enters what the items of a state say, one after the other. -/
def enterItems (a : Automaton) (state : Nat) (items : ItemSet) :
    List Item → Row → Traced BuildError Row
  | [], row => pure row
  | item :: rest, row => do
    let row ← a.enterItem state items row item
    a.enterItems state items rest row

/-- The row of a state. -/
def row (a : Automaton) (state : Nat) (items : ItemSet) : Traced BuildError Row :=
  a.enterItems state items items.toList (.blank a.terminals a.nonterminals)

/-! ## All rows -/

/-- The rows of states that are numbered from `state` on. -/
def rowsFrom (a : Automaton) (state : Nat) : List ItemSet → Traced BuildError Tables
  | [] => pure []
  | items :: rest => do
    let row ← a.row state items
    let rows ← a.rowsFrom (state + 1) rest
    pure (row :: rows)

/-- The tables, which may hold cells that cannot be decided. -/
def tables (a : Automaton) : Traced BuildError Tables := a.rowsFrom 0 a.states

/-- The error that a conflict of the cells stands for. -/
def conflictError (a : Automaton) (c : Conflict) : BuildError :=
  .tableConflict c.kind c.state (a.nameOf (a.nonterminals + c.column)) c.cell

/-- Refuses cells that cannot be decided. -/
def validate (a : Automaton) (rows : List (List Cell)) : Except BuildError Unit :=
  match Tables.conflict? a.productions rows with
  | none => .ok ()
  | some c => .error (a.conflictError c)

end Automaton

end GuardedGrammar
