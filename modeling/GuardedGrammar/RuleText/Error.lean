/-
  Why a text of rules, or a part of one, cannot be read.
-/
import GuardedGrammar.RuleText.ClauseToken

namespace GuardedGrammar

/-- What has to stand at a place of a guard or a statement. -/
inductive ClauseExpectation where
  | expression
  | equals
  | nothing
  | statement
deriving DecidableEq, Repr

/-- What is said to be expected. -/
def ClauseExpectation.describe : ClauseExpectation → String
  | expression => "an expression"
  | equals => "`=`"
  | nothing => "end of input"
  | statement => "`emit` or an attribute"

/-- What is wrong with a token. -/
inductive SyntaxProblem where
  /-- Something else was expected in a guard or a statement; `none` is its end. -/
  | clause (expected : ClauseExpectation) (found : Option ClauseToken)
  /-- A rule does not begin with a symbol. -/
  | noRule
  /-- There is no arrow after the left-hand side. -/
  | noArrow
  /-- A rule goes on where it should be complete. -/
  | noLineEnd
deriving DecidableEq, Repr

/-- What is said of a problem. -/
def SyntaxProblem.describe : SyntaxProblem → String
  | clause expected found =>
    "expected " ++ expected.describe ++ ", found "
      ++ (match found with
        | some token => token.describe
        | none => "end of input")
  | noRule => "expected a rule"
  | noArrow => "expected `->`"
  | noLineEnd => "expected end of line"

/-- Why a text is not read. -/
inductive ReadError where
  /-- The text cannot be cut into tokens. -/
  | unknownToken (e : UnknownToken)
  /-- The token before the location is not the one that should stand there. -/
  | syntaxError (location : Location) (problem : SyntaxProblem)
deriving DecidableEq, Repr

/-- What is reported of an error. -/
def ReadError.message : ReadError → String
  | unknownToken e => e.message
  | syntaxError location problem =>
    "syntax error at " ++ location.describe ++ ": " ++ problem.describe

end GuardedGrammar
