/-
  Why no grammar can be built from a list of rules.
-/
import GuardedGrammar.Inconsistency
import GuardedGrammar.Table.Conflict

namespace GuardedGrammar

/-- Why no grammar is built. -/
inductive BuildError where
  /-- There are no rules. -/
  | emptyGrammar
  /-- A rule uses a name that stands for the start symbol or the end of the input. -/
  | reservedSymbol (name : String)
  /-- The actions for a terminal cannot be decided. -/
  | tableConflict (kind : ConflictKind) (state : Nat) (terminal : String) (cell : Cell)
  /-- There are two places to go with a nonterminal. -/
  | duplicateGoto (state : Nat) (nonterminal : String) (first second : Nat)
  /-- The tables contradict the automaton. -/
  | inconsistent (what : Inconsistency)
deriving DecidableEq, Repr

/-- What is reported of an error. -/
def BuildError.message : BuildError → String
  | emptyGrammar => "grammar has no rules"
  | reservedSymbol name => "reserved symbol " ++ Text.quoted name ++ " used in a rule"
  | tableConflict kind state terminal cell =>
    kind.render ++ " conflict in state " ++ toString state ++ " on " ++ Text.quoted terminal ++ ": "
      ++ cell.render
  | duplicateGoto state nonterminal first second =>
    "duplicate goto from state " ++ toString state ++ " on " ++ Text.quoted nonterminal ++ ": "
      ++ toString first ++ " and " ++ toString second
  | inconsistent what => what.message

end GuardedGrammar
