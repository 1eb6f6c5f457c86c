/-
  Reading guards and statements.

  A statement is `emit` with any number of expressions, or an attribute, an equals sign and an
  expression; a guard is two expressions with an equals sign between them.  Nothing may follow.

  Readers are at the first of the tokens that they are given, which has been asked for already; they
  give back the tokens that follow what they have read.
-/
import GuardedGrammar.Journal.Pull
import GuardedGrammar.RuleText.Error

namespace GuardedGrammar.RuleText

/-- Asks for the first of the tokens that are ahead. -/
def enter {τ : Type} (tokens : Tokens τ) : Traced ReadError Unit :=
  tokens.enter.mapError .unknownToken

/-- The failure at a token. -/
def failAt {τ α : Type} (tokens : Tokens τ) (problem : SyntaxProblem) : Traced ReadError α :=
  .fail (.syntaxError tokens.place problem)

/-- The token that a reader is at. -/
def head? {τ : Type} : Tokens τ → Option τ
  | .token _ value _ _ => some value
  | _ => none

/-- The failure at a token of a guard or a statement. -/
def failClause {α : Type} (tokens : Tokens ClauseToken) (expected : ClauseExpectation) :
    Traced ReadError α :=
  failAt tokens (.clause expected (head? tokens))

/-! ## Parts -/

/-- An expression. -/
def expression : Tokens ClauseToken → Traced ReadError (Expression × Tokens ClauseToken)
  | .token seen value place next =>
    match value.expression? with
    | some e => do
      enter next
      pure (e, next)
    | none => failClause (.token seen value place next) .expression
  | tokens => failClause tokens .expression

/-- As many expressions as there are. -/
def expressions : Tokens ClauseToken → Traced ReadError (List Expression × Tokens ClauseToken)
  | .token seen value place next =>
    match value.expression? with
    | some e => do
      enter next
      let (rest, after) ← expressions next
      pure (e :: rest, after)
    | none => pure ([], .token seen value place next)
  | tokens => pure ([], tokens)

/-- An equals sign. -/
def equals : Tokens ClauseToken → Traced ReadError (Tokens ClauseToken)
  | .token _ .equals _ next => do
    enter next
    pure next
  | tokens => failClause tokens .equals

/-- The end. -/
def finish : Tokens ClauseToken → Traced ReadError Unit
  | .ended _ _ => pure ()
  | tokens => failClause tokens .nothing

/-! ## Statements and guards -/

/-- A statement. -/
def statement : Tokens ClauseToken → Traced ReadError (Statement × Tokens ClauseToken)
  | .token _ .emit _ next => do
    enter next
    let (parts, rest) ← expressions next
    pure (.emit parts, rest)
  | .token _ (.attributeRef ref) _ next => do
    enter next
    let rest ← equals next
    let (value, rest) ← expression rest
    pure (.assign ref value, rest)
  | tokens => failClause tokens .statement

/-- A guard. -/
def condition (tokens : Tokens ClauseToken) :
    Traced ReadError (Condition × Tokens ClauseToken) := do
  let (left, rest) ← expression tokens
  let rest ← equals rest
  let (right, rest) ← expression rest
  pure (⟨left, right⟩, rest)

/-- Reads the whole of a text. -/
def whole {α : Type} (reader : Tokens ClauseToken → Traced ReadError (α × Tokens ClauseToken))
    (text : List Char) : Traced ReadError α := do
  let tokens := Tokens.ofText clauseTokens text
  enter tokens
  let (value, rest) ← reader tokens
  finish rest
  pure value

/-- Reads a text that is a statement. -/
def readStatement (text : List Char) : Traced ReadError Statement := whole statement text

/-- Reads a text that is a guard. -/
def readCondition (text : List Char) : Traced ReadError Condition := whole condition text

/-- Reads texts that are statements. -/
def readStatements : List (List Char) → Traced ReadError (List Statement)
  | [] => pure []
  | text :: rest => do
    let first ← readStatement text
    let others ← readStatements rest
    pure (first :: others)

end GuardedGrammar.RuleText
