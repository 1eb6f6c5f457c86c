/-
  What a faulty table would do.

  The automaton keeps a state for every set of items that it can reach, and the stack of a parse spells
  a path through it.  Where a step relies on this and finds otherwise, it stops with an inconsistency
  instead of going on with a value made up.  A grammar that has been built is not meant to give rise
  to any of them; tables and stacks that are put together by hand can.
-/
import GuardedGrammar.Rule.Printer

namespace GuardedGrammar

/-- What may be missing where it should be. -/
inductive Inconsistency where
  /-- Reading the symbol leads from the state to no state of the collection. -/
  | unknownState (state : Nat) (symbol : String)
  /-- A cell has more than one action, and not all of them are reductions. -/
  | unresolvedCell (state : Nat) (terminal : String)
  /-- The parse is accepted while the stack does not hold one symbol. -/
  | acceptedStack (height : Nat)
  /-- The stack holds fewer symbols than the right-hand side of the rule. -/
  | shallowStack (rule : Rule)
  /-- A rule is bound to more or fewer entries than its right-hand side has symbols. -/
  | wrongHeight (rule : Rule) (found : Nat)
  /-- A rule is bound to an entry of another symbol than its right-hand side has there. -/
  | wrongSymbol (rule : Rule) (found expected : String)
  /-- There is nowhere to go from the state with the nonterminal. -/
  | missingGoto (state : Nat) (nonterminal : String)
deriving DecidableEq, Repr

namespace Inconsistency

/-- What is wrong, without the heading. -/
def describe : Inconsistency → String
  | unknownState state symbol =>
    "goto(" ++ toString state ++ ", " ++ symbol ++ ") is not a known state"
  | unresolvedCell state terminal =>
    "unresolved cell in state " ++ toString state ++ " on " ++ Text.quoted terminal
  | acceptedStack height => "accept with " ++ toString height ++ " stack entries"
  | shallowStack rule => "stack too shallow to reduce " ++ rule.render
  | wrongHeight rule found =>
    "reducing " ++ rule.render ++ " needs " ++ toString rule.rhs.length ++ " stack entries, found "
      ++ toString found
  | wrongSymbol rule found expected =>
    "stack holds " ++ Text.quoted found ++ " where " ++ rule.render ++ " expects "
      ++ Text.quoted expected
  | missingGoto state nonterminal =>
    "no goto from state " ++ toString state ++ " on " ++ nonterminal

def message (i : Inconsistency) : String := "table inconsistency: " ++ i.describe

end Inconsistency

end GuardedGrammar
