/-
  Cells that cannot be decided.

  Acceptance and a shift have to be alone in their cells, and of the reductions at most one may be
  without a guard.  The first cell that breaks this, by state and then by column, is the conflict of
  a table.
-/
import GuardedGrammar.Table.Basic

namespace GuardedGrammar

/-- Why a cell cannot be decided. -/
inductive ConflictKind where
  /-- It accepts and does something else. -/
  | accept
  /-- It shifts and does something else. -/
  | shiftReduce
  /-- It has two reductions without a guard. -/
  | reduceReduce
deriving DecidableEq, Repr

def ConflictKind.render : ConflictKind → String
  | accept => "accept"
  | shiftReduce => "shift/reduce"
  | reduceReduce => "reduce/reduce"

/-- Why a cell cannot be decided, if it cannot. -/
def Cell.conflict? (productions : List Production) (c : Cell) : Option ConflictKind :=
  if c.length < 2 then none
  else if c.contains .accept then some .accept
  else if c.any Action.isShift then some .shiftReduce
  else if 1 < c.countP (·.isUnguarded productions) then some .reduceReduce
  else none

/-- A cell that cannot be decided, and where it is. -/
structure Conflict where
  kind : ConflictKind
  state : Nat
  column : Nat
  cell : Cell
deriving DecidableEq, Repr

namespace Tables

/-- The conflict of a row, which is the row of the given state. -/
def rowConflict? (productions : List Production) (state : Nat) (row : List Cell) : Option Conflict :=
  row.zipIdx.findSome? fun (cell, column) =>
    (cell.conflict? productions).map fun kind => ⟨kind, state, column, cell⟩

/-- The first conflict of the cells of a table, by state and then by column. -/
def conflict? (productions : List Production) (rows : List (List Cell)) : Option Conflict :=
  rows.zipIdx.findSome? fun (row, state) => rowConflict? productions state row

end Tables

end GuardedGrammar
