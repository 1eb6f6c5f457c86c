/-
  Guards and statements as rows of tokens.

  A clause has one row of tokens that it is written with (`Condition.tokens`, `Statement.tokens`), and a
  text that is cut into this row is read as the clause.  The readers take tokens off the front, so there
  is a lemma for each of them which says what it leaves, and the clause is read when nothing is left.
-/
import GuardedGrammar.Proofs.TokenValues

namespace GuardedGrammar

/-- The token that an expression is written with. -/
def Expression.token : Expression → ClauseToken
  | .newRegister => .newRegister
  | .literal text => .literal text
  | .read ref => .attributeRef ref

/-- The tokens that a guard is written with. -/
def Condition.tokens (c : Condition) : List ClauseToken :=
  [c.left.token, .equals, c.right.token]

/-- The tokens that a statement is written with. -/
def Statement.tokens : Statement → List ClauseToken
  | .emit parts => .emit :: parts.map Expression.token
  | .assign destination value => [.attributeRef destination, .equals, value.token]

@[simp] theorem Expression.expression?_token (e : Expression) : e.token.expression? = some e := by
  cases e <;> rfl

namespace RuleText

section

variable {tokens : Tokens ClauseToken} {ts : List ClauseToken}

/-- An expression is read off the front, and leaves the rest. -/
theorem exists_expression {e : Expression} (h : tokens.values? = some (e.token :: ts)) :
    ∃ rest, (expression tokens).result = .ok (e, rest) ∧ rest.values? = some ts := by
  obtain ⟨_, _, rest, rfl, hrest⟩ := Tokens.exists_token_of_values?_eq_cons h
  refine ⟨rest, ?_, hrest⟩
  simp only [expression, Expression.expression?_token]
  rw [Traced.result_bind, result_enter_of_values? hrest]
  rfl

/-- Expressions are read up to the end. -/
theorem exists_expressions {parts : List Expression}
    (h : tokens.values? = some (parts.map Expression.token)) :
    ∃ rest, (expressions tokens).result = .ok (parts, rest) ∧ rest.values? = some [] := by
  induction parts generalizing tokens with
  | nil =>
    obtain ⟨_, _, rfl⟩ := Tokens.exists_ended_of_values?_eq_nil h
    exact ⟨_, rfl, rfl⟩
  | cons e parts ih =>
    obtain ⟨_, _, next, rfl, hnext⟩ := Tokens.exists_token_of_values?_eq_cons h
    obtain ⟨rest, hparts, hrest⟩ := ih hnext
    refine ⟨rest, ?_, hrest⟩
    simp only [expressions, Expression.expression?_token, Traced.result_bind_eq_ok_iff]
    exact ⟨(), result_enter_of_values? hnext, _, hparts, rfl⟩

/-- So is an equals sign. -/
theorem exists_equals (h : tokens.values? = some (.equals :: ts)) :
    ∃ rest, (equals tokens).result = .ok rest ∧ rest.values? = some ts := by
  obtain ⟨_, _, rest, rfl, hrest⟩ := Tokens.exists_token_of_values?_eq_cons h
  refine ⟨rest, ?_, hrest⟩
  rw [equals, Traced.result_bind, result_enter_of_values? hrest]
  rfl

/-- A guard is read in three parts, each off what the one before has left. -/
theorem exists_condition {c : Condition} (h : tokens.values? = some c.tokens) :
    ∃ rest, (condition tokens).result = .ok (c, rest) ∧ rest.values? = some [] := by
  obtain ⟨afterLeft, hleft, h⟩ := exists_expression h
  obtain ⟨afterEquals, hequals, h⟩ := exists_equals h
  obtain ⟨rest, hright, h⟩ := exists_expression h
  refine ⟨rest, ?_, h⟩
  simp only [condition, Traced.result_bind_eq_ok_iff]
  exact ⟨_, hleft, _, hequals, _, hright, rfl⟩

/-- A statement is read by its kind, and nothing is left. -/
theorem exists_statement {s : Statement} (h : tokens.values? = some s.tokens) :
    ∃ rest, (statement tokens).result = .ok (s, rest) ∧ rest.values? = some [] := by
  -- the first token is `emit` or the attribute that is assigned to
  cases s with
  | emit parts =>
    obtain ⟨_, _, next, rfl, hnext⟩ := Tokens.exists_token_of_values?_eq_cons h
    obtain ⟨rest, hparts, hrest⟩ := exists_expressions hnext
    refine ⟨rest, ?_, hrest⟩
    simp only [statement, Traced.result_bind_eq_ok_iff]
    exact ⟨(), result_enter_of_values? hnext, _, hparts, rfl⟩
  | assign destination value =>
    obtain ⟨_, _, next, rfl, hnext⟩ := Tokens.exists_token_of_values?_eq_cons h
    obtain ⟨afterEquals, hequals, hvalue⟩ := exists_equals hnext
    obtain ⟨rest, hexpression, hrest⟩ := exists_expression hvalue
    refine ⟨rest, ?_, hrest⟩
    simp only [statement, Traced.result_bind_eq_ok_iff]
    exact ⟨(), result_enter_of_values? hnext, _, hequals, _, hexpression, rfl⟩

/-- A text is read if its reader takes all of its tokens. -/
theorem result_whole_of_values? {α : Type}
    {reader : Tokens ClauseToken → Traced ReadError (α × Tokens ClauseToken)} {text : List Char}
    {a : α} (hts : (Tokens.ofText clauseTokens text).values? = some ts)
    (hread : ∃ rest, (reader (Tokens.ofText clauseTokens text)).result = .ok (a, rest) ∧
      rest.values? = some []) : (whole reader text).result = .ok a := by
  obtain ⟨rest, hreader, hrest⟩ := hread
  obtain ⟨_, _, rfl⟩ := Tokens.exists_ended_of_values?_eq_nil hrest
  simp only [whole, Traced.result_bind_eq_ok_iff]
  exact ⟨(), result_enter_of_values? hts, _, hreader, (), rfl, rfl⟩

end

/-- A text with the tokens of a guard is read as the guard. -/
theorem result_readCondition_of_values? {text : List Char} {c : Condition}
    (h : (Tokens.ofText clauseTokens text).values? = some c.tokens) :
    (readCondition text).result = .ok c :=
  result_whole_of_values? h (exists_condition h)

/-- A text with the tokens of a statement is read as the statement. -/
theorem result_readStatement_of_values? {text : List Char} {s : Statement}
    (h : (Tokens.ofText clauseTokens text).values? = some s.tokens) :
    (readStatement text).result = .ok s :=
  result_whole_of_values? h (exists_statement h)

end RuleText

end GuardedGrammar
