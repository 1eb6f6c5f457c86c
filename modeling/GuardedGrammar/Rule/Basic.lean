/-
  Rules of a guarded attribute grammar.

  A rule derives a symbol into a row of symbols.  It may carry a guard, a condition on the attributes
  of the symbols that decides whether the rule applies, and an action, statements that are carried
  out when it does.  Symbols are told apart by name only; the index of an occurrence serves to
  address its attributes where a name occurs more than once in a rule.
-/

namespace GuardedGrammar

/-- An occurrence of a symbol: its name, and an index to address it by. -/
structure Symbol where
  name : String
  index : Option Nat := none
deriving DecidableEq, Repr, Inhabited

/-- Whose attributes are meant: those of a name, or those of an index. -/
inductive Target where
  | named (name : String)
  | numbered (index : Nat)
deriving DecidableEq, Repr

/-- One attribute of one occurrence. -/
structure AttributeRef where
  target : Target
  name : String
deriving DecidableEq, Repr

/-- What has a value. -/
inductive Expression where
  /-- The number of a register that nothing else uses. -/
  | newRegister
  /-- The text itself. -/
  | literal (text : String)
  /-- The value of an attribute. -/
  | read (ref : AttributeRef)
deriving DecidableEq, Repr

/-- What an action does. -/
inductive Statement where
  /-- Writes a line that consists of the values. -/
  | emit (parts : List Expression)
  /-- Gives an attribute a value. -/
  | assign (destination : AttributeRef) (value : Expression)
deriving DecidableEq, Repr

/-- A guard: two expressions that have to have the same value. -/
structure Condition where
  left : Expression
  right : Expression
deriving DecidableEq, Repr

/-- A rule. An action may have no statements, which is not the same as no action. -/
structure Rule where
  lhs : Symbol
  rhs : List Symbol
  condition : Option Condition := none
  action : Option (List Statement) := none
deriving DecidableEq, Repr, Inhabited

/-- Whether the rule carries a guard. -/
def Rule.isGuarded (r : Rule) : Bool := r.condition.isSome

end GuardedGrammar
