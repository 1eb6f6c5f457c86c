/-
  Why a parse ends without a result.
-/
import GuardedGrammar.Inconsistency
import GuardedGrammar.Lexer.Basic

namespace GuardedGrammar

/-- Why the input is not accepted. -/
inductive Failure where
  /-- The terminals ran out before the end marker came. -/
  | endOfInput
  /-- The terminal cannot come in this state. -/
  | noAction (state : Nat) (terminal : String)
  /-- Only guarded rules apply, and none of the guards holds. -/
  | noSatisfiedReduce (state : Nat) (terminal : String)
deriving DecidableEq, Repr

/-- What is said of a failure. -/
def Failure.describe : Failure → String
  | endOfInput => "unexpected end of terminal stream"
  | noAction state terminal =>
    "no action for " ++ Text.quoted terminal ++ " in state " ++ toString state
  | noSatisfiedReduce state terminal =>
    "no reduce rule satisfies its condition in state " ++ toString state ++ " on "
      ++ Text.quoted terminal

/-- How a parse may end without a result. -/
inductive ParseError where
  /-- The input is not accepted. -/
  | failed (why : Failure)
  /-- There is no terminal of this name; `index` counts the terminals before it. -/
  | unknownTerminal (name : String) (index : Nat)
  /-- An attribute is read that the occurrence does not have. -/
  | missingAttribute (ref : AttributeRef)
  /-- The rule has no occurrence that the target names. -/
  | unboundTarget (target : Target)
  /-- The tables contradict the automaton. -/
  | inconsistent (what : Inconsistency)
  /-- The input or the output broke off. -/
  | broken (cause : String)
  /-- The input could not be cut into terminals. -/
  | unknownToken (e : UnknownToken)
deriving DecidableEq, Repr

/-- What is reported of an error. -/
def ParseError.message : ParseError → String
  | failed why => "parse failed: " ++ why.describe
  | unknownTerminal name index =>
    "unknown terminal " ++ Text.quoted name ++ " (terminal #" ++ toString index ++ ")"
  | missingAttribute ref =>
    "missing attribute " ++ Text.quoted ref.name ++ " of " ++ ref.target.render
  | unboundTarget target => "no attribute map bound to " ++ target.render
  | inconsistent what => what.message
  | broken cause => "output error: " ++ cause
  | unknownToken e => e.message

end GuardedGrammar
