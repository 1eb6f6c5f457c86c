/-
  The stack of a parse.

  Each entry is an occurrence of a symbol with its attributes, and the state that the automaton is in
  once the symbol has been pushed.  A stack is listed with its top first.
-/
import GuardedGrammar.Attributes

namespace GuardedGrammar

/-- An occurrence of a symbol on the stack, and the state it led to. -/
structure StackEntry where
  state : Nat
  symbol : String
  attributes : Attributes := ∅
deriving DecidableEq, Repr

namespace StackEntry

/-- The state of the top entry; the automaton begins in state 0. -/
def topState (stack : List StackEntry) : Nat :=
  match stack with
  | [] => 0
  | entry :: _ => entry.state

/-- An entry as it is shown. -/
def render (entry : StackEntry) : String :=
  "<" ++ toString entry.state ++ "> " ++ entry.symbol

end StackEntry

end GuardedGrammar
