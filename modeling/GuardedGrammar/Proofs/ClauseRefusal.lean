/-
  How guards and statements are refused.

  Guards and statements are read from left to right, and what may still come is a kind of rows at each
  place: an expression and then something else, an equals sign and then something else, or nothing.
  For each reader there is a lemma that says what it takes off such rows (`eq_token_of_expression` and
  so on) and one that says how it refuses them (`refuses_expression` and so on).

  Main statements: `result_readCondition_eq_ok_iff` and `result_readStatement_eq_ok_iff`, which texts
  are read, `failsAt_of_readCondition` and `failsAt_of_readStatement`, where the others are refused, and
  `clauses_read_exactly`, which puts them together.
-/
import GuardedGrammar.Proofs.ClauseSpelling
import GuardedGrammar.Proofs.Refusal

namespace GuardedGrammar.RuleText

/-- The rows of tokens that guards are written with. -/
def IsGuardRow (ts : List ClauseToken) : Prop := ∃ c : Condition, ts = c.tokens

/-- The rows of tokens that statements are written with. -/
def IsStatementRow (ts : List ClauseToken) : Prop := ∃ s : Statement, ts = s.tokens

/-- A token of the given kind, and then a row of the given kind. -/
def Leads {τ : Type} (P : τ → Prop) (IsRow : List τ → Prop) (ts : List τ) : Prop :=
  ∃ t more, ts = t :: more ∧ P t ∧ IsRow more

/-- Behind a token of the kind, what may come is what the kind of rows says. -/
theorem leads_cons_iff {τ : Type} {P : τ → Prop} {IsRow : List τ → Prop} {t : τ} (ht : P t)
    (ts : List τ) : Leads P IsRow (t :: ts) ↔ IsRow ts := by
  constructor
  · rintro ⟨_, _, h, -, hmore⟩
    obtain ⟨-, rfl⟩ := List.cons.inj h
    exact hmore
  · exact fun h => ⟨t, ts, rfl, ht, h⟩

/-- A token that is an expression. -/
def IsExpression (t : ClauseToken) : Prop := ∃ e : Expression, t = e.token

/-- A token is read as an expression exactly if it is the one that the expression is written
with. -/
theorem expression?_eq_some_iff {t : ClauseToken} {e : Expression} :
    t.expression? = some e ↔ t = e.token := by
  constructor
  · intro h
    cases t with
    | attributeRef | newRegister | literal => cases h; rfl
    | emit | equals => exact nomatch h
  · rintro rfl
    exact e.expression?_token

theorem not_isExpression_of_expression? {t : ClauseToken} (h : t.expression? = none) :
    ¬IsExpression t := by
  rintro ⟨e, rfl⟩
  exact nomatch h.symm.trans e.expression?_token

/-! ## Rows of guards and statements -/

/-- A guard is an expression, an equals sign and an expression. -/
theorem isGuardRow_iff (ts : List ClauseToken) : IsGuardRow ts ↔
    Leads IsExpression (Leads (· = .equals) (Leads IsExpression (· = []))) ts := by
  constructor
  · rintro ⟨c, rfl⟩
    exact ⟨_, _, rfl, ⟨_, rfl⟩, _, _, rfl, rfl, _, _, rfl, ⟨_, rfl⟩, rfl⟩
  · rintro ⟨_, _, rfl, ⟨left, rfl⟩, _, _, rfl, rfl, _, _, rfl, ⟨right, rfl⟩, rfl⟩
    exact ⟨⟨left, right⟩, rfl⟩

/-- Behind `emit` there are expressions only, as many as there may be. -/
theorem isStatementRow_emit_iff (ts : List ClauseToken) :
    IsStatementRow (.emit :: ts) ↔ ∀ t ∈ ts, IsExpression t := by
  constructor
  · rintro ⟨s, h⟩ t ht
    cases s with
    | emit parts =>
      obtain ⟨-, rfl⟩ := List.cons.inj h
      obtain ⟨e, -, rfl⟩ := List.mem_map.1 ht
      exact ⟨e, rfl⟩
    | assign => exact nomatch (List.cons.inj h).1
  · intro h
    obtain ⟨parts, rfl⟩ : ∃ parts : List Expression, ts = parts.map Expression.token := by
      induction ts with
      | nil => exact ⟨[], rfl⟩
      | cons t ts ih =>
        obtain ⟨⟨e, rfl⟩, hts⟩ := List.forall_mem_cons.1 h
        obtain ⟨parts, rfl⟩ := ih hts
        exact ⟨e :: parts, rfl⟩
    exact ⟨.emit parts, rfl⟩

/-- Behind an attribute there are an equals sign and an expression. -/
theorem isStatementRow_attributeRef_iff (ref : AttributeRef) (ts : List ClauseToken) :
    IsStatementRow (.attributeRef ref :: ts) ↔
      Leads (· = .equals) (Leads IsExpression (· = [])) ts := by
  constructor
  · rintro ⟨s, h⟩
    cases s with
    | emit => exact nomatch (List.cons.inj h).1
    | assign =>
      obtain ⟨-, rfl⟩ := List.cons.inj h
      exact ⟨_, _, rfl, rfl, _, _, rfl, ⟨_, rfl⟩, rfl⟩
  · rintro ⟨_, _, rfl, rfl, _, _, rfl, ⟨value, rfl⟩, rfl⟩
    exact ⟨.assign ref value, rfl⟩

/-! ## Readers -/

/-- Nothing is at fault with a token of a guard or a statement for itself. -/
def NoFault (_ : ClauseToken) (_ : ReadError) : Prop := False

section

variable {tokens rest : Tokens ClauseToken} {IsRow : List ClauseToken → Prop} {error : ReadError}

/-- To look for the next token fails only where the text cannot be cut. -/
theorem exists_of_enter_eq_error {τ : Type} {tokens : Tokens τ}
    (h : (enter tokens).result = .error error) :
    ∃ seen e, tokens = .stuck seen e ∧ error = .unknownToken e := by
  cases tokens with
  | ended => exact nomatch h
  | stuck seen e => exact ⟨seen, e, rfl, (Except.error.inj h).symm⟩
  | token => exact nomatch h

/-- A text that cannot be cut is refused there, whatever might have come. -/
theorem refuses_of_enter {τ : Type} {tokens : Tokens τ} {IsFault : τ → ReadError → Prop}
    {IsRow : List τ → Prop} (hopen : ∃ ts, IsRow ts) (h : (enter tokens).result = .error error) :
    Refuses IsFault IsRow tokens error := by
  obtain ⟨seen, e, rfl, rfl⟩ := exists_of_enter_eq_error h
  exact .stuck hopen

/-- An expression takes its token off, and then there is a next token to be looked at. -/
theorem eq_token_of_expression {e : Expression}
    (h : (expression tokens).result = .ok (e, rest)) :
    (∃ seen place, tokens = .token seen e.token place rest) ∧ (enter rest).result = .ok () := by
  cases tokens with
  | ended => exact nomatch h
  | stuck => exact nomatch h
  | token seen t place next =>
    unfold expression at h
    dsimp only at h
    split at h
    · next e' he =>
      obtain ⟨_, henter, hpure⟩ := (Traced.result_bind_eq_ok_iff _ _ _).1 h
      cases hpure
      exact ⟨⟨seen, place, by rw [expression?_eq_some_iff.1 he]⟩, henter⟩
    · exact nomatch h

/-- Where an expression is due, another token is refused, and so is the end. -/
theorem refuses_expression (hopen : ∃ ts, IsRow ts) (hentered : (enter tokens).result = .ok ())
    (h : (expression tokens).result = .error error) :
    Refuses NoFault (Leads IsExpression IsRow) tokens error := by
  obtain ⟨ts, hts⟩ := hopen
  have hleads : ∃ ts, Leads IsExpression IsRow ts :=
    ⟨_, _, ts, rfl, ⟨.newRegister, rfl⟩, hts⟩
  cases tokens with
  | stuck => exact nomatch hentered
  | ended =>
    cases h
    exact .ended hleads fun ⟨_, _, he, _⟩ => nomatch he
  | token seen t place next =>
    unfold expression at h
    dsimp only at h
    split at h
    · next e he =>
      rcases (Traced.result_bind_eq_error_iff _ _ _).1 h with h | ⟨_, _, h⟩
      · refine (refuses_of_enter ⟨ts, hts⟩ h).behind fun ts => leads_cons_iff ⟨e, ?_⟩ ts
        exact expression?_eq_some_iff.1 he
      · exact nomatch h
    · next he =>
      cases h
      refine .token hleads fun ts h => ?_
      obtain ⟨_, _, heq, ht, -⟩ := h
      obtain ⟨rfl, -⟩ := List.cons.inj heq
      exact not_isExpression_of_expression? he ht

/-- An equals sign takes its token off. -/
theorem eq_token_of_equals (h : (equals tokens).result = .ok rest) :
    (∃ seen place, tokens = .token seen .equals place rest) ∧ (enter rest).result = .ok () := by
  unfold equals at h
  split at h
  · obtain ⟨_, henter, hpure⟩ := (Traced.result_bind_eq_ok_iff _ _ _).1 h
    cases hpure
    exact ⟨⟨_, _, rfl⟩, henter⟩
  · exact nomatch h

/-- Where an equals sign is due, anything else is refused. -/
theorem refuses_equals (hopen : ∃ ts, IsRow ts) (hentered : (enter tokens).result = .ok ())
    (h : (equals tokens).result = .error error) :
    Refuses NoFault (Leads (· = .equals) IsRow) tokens error := by
  obtain ⟨ts, hts⟩ := hopen
  have hleads : ∃ ts, Leads (· = .equals) IsRow ts := ⟨_, _, ts, rfl, rfl, hts⟩
  unfold equals at h
  split at h
  · rcases (Traced.result_bind_eq_error_iff _ _ _).1 h with h | ⟨_, _, h⟩
    · exact (refuses_of_enter ⟨ts, hts⟩ h).behind (leads_cons_iff rfl)
    · exact nomatch h
  · next hother =>
    cases h
    cases tokens with
    | stuck => exact nomatch hentered
    | ended => exact .ended hleads fun ⟨_, _, he, _⟩ => nomatch he
    | token seen t place next =>
      refine .token hleads fun ts h => ?_
      obtain ⟨_, _, heq, rfl, -⟩ := h
      obtain ⟨rfl, -⟩ := List.cons.inj heq
      exact hother seen place next rfl

/-- Nothing is left if reading may finish. -/
theorem eq_ended_of_finish (h : (finish tokens).result = .ok ()) :
    ∃ seen place, tokens = .ended seen place := by
  unfold finish at h
  split at h
  · exact ⟨_, _, rfl⟩
  · exact nomatch h

/-- Where the text is to end, any token is refused. -/
theorem refuses_finish (hentered : (enter tokens).result = .ok ())
    (h : (finish tokens).result = .error error) : Refuses NoFault (· = []) tokens error := by
  cases tokens with
  | stuck => exact nomatch hentered
  | ended => exact nomatch h
  | token =>
    cases h
    exact .token ⟨[], rfl⟩ fun ts h => nomatch h

/-- By induction on the tokens that are read: expressions take off the tokens that they are written
with. -/
theorem startsWith_of_expressions {parts : List Expression}
    (h : (expressions tokens).result = .ok (parts, rest)) :
    tokens.StartsWith (parts.map Expression.token) rest := by
  fun_induction expressions tokens generalizing parts with
  | case1 seen t place next e he ih =>
    simp only [Traced.result_bind_eq_ok_iff] at h
    obtain ⟨_, _, ⟨others, after⟩, hothers, h⟩ := h
    cases h
    obtain rfl := expression?_eq_some_iff.1 he
    exact (Tokens.startsWith_singleton ..).append (ih hothers)
  -- a token that is no expression, or none at all, ends the row
  | case2 =>
    cases h
    exact Tokens.startsWith_nil _
  | case3 =>
    cases h
    exact Tokens.startsWith_nil _

/-- A row of expressions. -/
def AreExpressions (ts : List ClauseToken) : Prop := ∀ t ∈ ts, IsExpression t

theorem areExpressions_nil : AreExpressions [] := fun _ h => nomatch h

/-- An expression in front does not matter to a row of expressions. -/
theorem areExpressions_cons_iff (e : Expression) (ts : List ClauseToken) :
    AreExpressions (e.token :: ts) ↔ AreExpressions ts := by
  unfold AreExpressions
  rw [List.forall_mem_cons]
  exact and_iff_right ⟨e, rfl⟩

/-- Expressions are read as far as there are any, so reading them fails only where the text cannot
be cut. -/
theorem refuses_expressions (h : (expressions tokens).result = .error error) :
    Refuses NoFault AreExpressions tokens error := by
  fun_induction expressions tokens with
  | case1 seen t place next e he ih =>
    obtain rfl := expression?_eq_some_iff.1 he
    have hnext : Refuses NoFault AreExpressions next error := by
      simp only [Traced.result_bind_eq_error_iff] at h
      rcases h with h | ⟨_, _, h | ⟨_, _, h⟩⟩
      · exact refuses_of_enter ⟨[], areExpressions_nil⟩ h
      · exact ih h
      · exact nomatch h
    exact hnext.behind (areExpressions_cons_iff e)
  | case2 => exact nomatch h
  | case3 => exact nomatch h

/-- Expressions are read as far as there are any, so what follows them is none. -/
theorem refuses_finish_of_expressions {parts : List Expression}
    (hentered : (enter tokens).result = .ok ())
    (h : (expressions tokens).result = .ok (parts, rest))
    (hfinish : (finish rest).result = .error error) :
    Refuses NoFault AreExpressions tokens error := by
  fun_induction expressions tokens generalizing parts with
  | case1 seen t place next e he ih =>
    obtain rfl := expression?_eq_some_iff.1 he
    simp only [Traced.result_bind_eq_ok_iff] at h
    obtain ⟨_, henter, ⟨others, after⟩, hothers, h⟩ := h
    cases h
    exact (ih henter hothers).behind (areExpressions_cons_iff e)
  | case2 seen t place next he =>
    cases h
    cases hfinish
    refine .token ⟨[], areExpressions_nil⟩ fun ts hts => ?_
    exact not_isExpression_of_expression? he (hts t List.mem_cons_self)
  | case3 tokens hother =>
    cases h
    cases rest with
    | ended => exact nomatch hfinish
    | stuck => exact nomatch hentered
    | token seen t place next => exact (hother seen t place next rfl).elim

/-- An equals sign and an expression, and nothing else: how both guards and assignments end. -/
abbrev IsRightSide : List ClauseToken → Prop :=
  Leads (· = .equals) (Leads IsExpression (· = []))

/-- There is a right side to be read. -/
theorem exists_isRightSide : ∃ ts, IsRightSide ts :=
  ⟨_, _, _, rfl, rfl, _, _, rfl, ⟨.newRegister, rfl⟩, rfl⟩

/-- A right side is refused at its equals sign or at its expression. -/
theorem refuses_rightSide (hentered : (enter tokens).result = .ok ())
    (h : (equals tokens).result = .error error ∨
      ∃ rest, (equals tokens).result = .ok rest ∧ (expression rest).result = .error error) :
    Refuses NoFault IsRightSide tokens error := by
  obtain ⟨_, _, ts, rfl, rfl, hts⟩ := exists_isRightSide
  rcases h with h | ⟨rest, hequals, h⟩
  · exact refuses_equals ⟨ts, hts⟩ hentered h
  · obtain ⟨⟨_, _, rfl⟩, hrest⟩ := eq_token_of_equals hequals
    refine Refuses.behind ?_ (leads_cons_iff rfl)
    exact refuses_expression ⟨[], rfl⟩ hrest h

/-- Behind a right side, nothing may come. -/
theorem refuses_finish_of_rightSide {after : Tokens ClauseToken} {e : Expression}
    (hequals : (equals tokens).result = .ok rest)
    (hright : (expression rest).result = .ok (e, after))
    (h : (finish after).result = .error error) : Refuses NoFault IsRightSide tokens error := by
  obtain ⟨⟨_, _, rfl⟩, -⟩ := eq_token_of_equals hequals
  obtain ⟨⟨_, _, rfl⟩, hafter⟩ := eq_token_of_expression hright
  refine Refuses.behind (.behind ?_ (leads_cons_iff ⟨e, rfl⟩)) (leads_cons_iff rfl)
  exact refuses_finish hafter h

/-! ## Guards and statements -/

/-- A guard takes off the tokens that it is written with. -/
theorem startsWith_of_condition {c : Condition} (h : (condition tokens).result = .ok (c, rest)) :
    tokens.StartsWith c.tokens rest := by
  simp only [condition, Traced.result_bind_eq_ok_iff] at h
  obtain ⟨⟨left, _⟩, hleft, _, hequals, ⟨right, _⟩, hright, h⟩ := h
  cases h
  obtain ⟨⟨_, _, rfl⟩, -⟩ := eq_token_of_expression hleft
  obtain ⟨⟨_, _, rfl⟩, -⟩ := eq_token_of_equals hequals
  obtain ⟨⟨_, _, rfl⟩, -⟩ := eq_token_of_expression hright
  exact (((Tokens.startsWith_singleton ..).behind ..).behind ..)

/-- A guard is refused at its left side, at the equals sign, or at its right side. -/
theorem refuses_condition (hentered : (enter tokens).result = .ok ())
    (h : (condition tokens).result = .error error) : Refuses NoFault IsGuardRow tokens error := by
  refine Refuses.congr ?_ fun ts => (isGuardRow_iff ts).symm
  simp only [condition, Traced.result_bind_eq_error_iff] at h
  -- the left side fails, or its token is taken off and the right side fails
  rcases h with h | ⟨⟨left, rest⟩, hleft, h⟩
  · exact refuses_expression exists_isRightSide hentered h
  · obtain ⟨⟨_, _, rfl⟩, hrest⟩ := eq_token_of_expression hleft
    refine Refuses.behind (refuses_rightSide hrest ?_) (leads_cons_iff ⟨left, rfl⟩)
    rcases h with h | ⟨rest, hequals, h | ⟨_, _, h⟩⟩
    · exact .inl h
    · exact .inr ⟨rest, hequals, h⟩
    · cases h

/-- Behind a guard, nothing may come. -/
theorem refuses_finish_of_condition {c : Condition}
    (hread : (condition tokens).result = .ok (c, rest))
    (h : (finish rest).result = .error error) : Refuses NoFault IsGuardRow tokens error := by
  refine Refuses.congr ?_ fun ts => (isGuardRow_iff ts).symm
  simp only [condition, Traced.result_bind_eq_ok_iff] at hread
  obtain ⟨⟨left, _⟩, hleft, _, hequals, ⟨right, _⟩, hright, hread⟩ := hread
  cases hread
  obtain ⟨⟨_, _, rfl⟩, -⟩ := eq_token_of_expression hleft
  exact (refuses_finish_of_rightSide hequals hright h).behind (leads_cons_iff ⟨left, rfl⟩)

/-- A statement takes off the tokens that it is written with. -/
theorem startsWith_of_statement {s : Statement} (h : (statement tokens).result = .ok (s, rest)) :
    tokens.StartsWith s.tokens rest := by
  unfold statement at h
  split at h
  · simp only [Traced.result_bind_eq_ok_iff] at h
    obtain ⟨_, _, ⟨parts, _⟩, hparts, h⟩ := h
    cases h
    exact (Tokens.startsWith_singleton ..).append (startsWith_of_expressions hparts)
  · simp only [Traced.result_bind_eq_ok_iff] at h
    obtain ⟨_, _, _, hequals, ⟨value, _⟩, hvalue, h⟩ := h
    cases h
    obtain ⟨⟨_, _, rfl⟩, -⟩ := eq_token_of_equals hequals
    obtain ⟨⟨_, _, rfl⟩, -⟩ := eq_token_of_expression hvalue
    exact (((Tokens.startsWith_singleton ..).behind ..).behind ..)
  · exact nomatch h

/-- There is a statement, one that writes an empty line. -/
theorem exists_isStatementRow : ∃ ts, IsStatementRow ts := ⟨_, .emit [], rfl⟩

/-- A statement is refused at its first token, or behind it as one of its kind. -/
theorem refuses_statement (hentered : (enter tokens).result = .ok ())
    (h : (statement tokens).result = .error error) :
    Refuses NoFault IsStatementRow tokens error := by
  unfold statement at h
  -- the first token says which kind of statement it is to be
  split at h
  · refine Refuses.behind ?_ isStatementRow_emit_iff
    simp only [Traced.result_bind_eq_error_iff] at h
    rcases h with h | ⟨_, _, h | ⟨_, _, h⟩⟩
    · exact refuses_of_enter ⟨[], areExpressions_nil⟩ h
    · exact refuses_expressions h
    · exact nomatch h
  · next ref _ _ =>
    refine Refuses.behind ?_ (isStatementRow_attributeRef_iff ref)
    simp only [Traced.result_bind_eq_error_iff] at h
    rcases h with h | ⟨_, hentered, h | ⟨rest, hequals, h | ⟨_, _, h⟩⟩⟩
    · exact refuses_of_enter exists_isRightSide h
    · exact refuses_rightSide hentered (.inl h)
    · exact refuses_rightSide hentered (.inr ⟨rest, hequals, h⟩)
    · exact nomatch h
  · next hemit hassign =>
    cases h
    cases tokens with
    | stuck => exact nomatch hentered
    | ended => exact .ended exists_isStatementRow fun ⟨s, hs⟩ => by cases s <;> exact nomatch hs
    | token seen t place next =>
      refine .token exists_isStatementRow fun ts ⟨s, hs⟩ => ?_
      -- a statement that begins with the token would have been taken for one
      cases s with
      | emit =>
        obtain ⟨rfl, -⟩ := List.cons.inj hs
        exact hemit _ _ _ rfl
      | assign ref =>
        obtain ⟨rfl, -⟩ := List.cons.inj hs
        exact hassign _ ref _ _ rfl

/-- Behind a statement, nothing may come. -/
theorem refuses_finish_of_statement {s : Statement}
    (hread : (statement tokens).result = .ok (s, rest))
    (h : (finish rest).result = .error error) : Refuses NoFault IsStatementRow tokens error := by
  unfold statement at hread
  split at hread
  · refine Refuses.behind ?_ isStatementRow_emit_iff
    simp only [Traced.result_bind_eq_ok_iff] at hread
    obtain ⟨_, hentered, ⟨parts, _⟩, hparts, hread⟩ := hread
    cases hread
    exact refuses_finish_of_expressions hentered hparts h
  · next ref _ _ =>
    refine Refuses.behind ?_ (isStatementRow_attributeRef_iff ref)
    simp only [Traced.result_bind_eq_ok_iff] at hread
    obtain ⟨_, _, _, hequals, ⟨value, _⟩, hvalue, hread⟩ := hread
    cases hread
    exact refuses_finish_of_rightSide hequals hvalue h
  · exact nomatch hread

end

/-! ## Texts -/

section

variable {α : Type} {reader : Tokens ClauseToken → Traced ReadError (α × Tokens ClauseToken)}
  {text : List Char}

/-- A text that is read as a whole has all of its tokens taken off. -/
theorem values?_of_result_whole {row : α → List ClauseToken} {a : α}
    (hreads : ∀ tokens rest, (reader tokens).result = .ok (a, rest) →
      tokens.StartsWith (row a) rest)
    (h : (whole reader text).result = .ok a) :
    (Tokens.ofText clauseTokens text).values? = some (row a) := by
  simp only [whole, Traced.result_bind_eq_ok_iff] at h
  obtain ⟨_, _, ⟨_, rest⟩, hread, _, hfinish, h⟩ := h
  cases h
  obtain ⟨_, _, rfl⟩ := eq_ended_of_finish hfinish
  rw [(hreads _ _ hread).values?_eq rfl, List.append_nil]

/-- A text is refused by the search for its first token, by its reader, or at what the reader
leaves. -/
theorem refuses_of_result_whole {IsRow : List ClauseToken → Prop} {error : ReadError}
    (hopen : ∃ ts, IsRow ts)
    (hreader : ∀ tokens, (enter tokens).result = .ok () → (reader tokens).result = .error error →
      Refuses NoFault IsRow tokens error)
    (hfinish : ∀ tokens a rest, (reader tokens).result = .ok (a, rest) →
      (finish rest).result = .error error → Refuses NoFault IsRow tokens error)
    (h : (whole reader text).result = .error error) :
    Refuses NoFault IsRow (Tokens.ofText clauseTokens text) error := by
  simp only [whole, Traced.result_bind_eq_error_iff] at h
  rcases h with h | ⟨_, hentered, h | ⟨⟨_, rest⟩, hread, h | ⟨_, _, h⟩⟩⟩
  · exact refuses_of_enter hopen h
  · exact hreader _ hentered h
  · exact hfinish _ _ rest hread h
  · cases h

/-- Without tokens that are at fault for themselves, what is refused is refused in the text. -/
theorem failsAt_of_refuses {IsRow : List ClauseToken → Prop} {error : ReadError}
    (h : Refuses NoFault IsRow (Tokens.ofText clauseTokens text) error) :
    FailsAt clauseTokens IsRow text error := by
  rcases failsAt_or_fault isTied_of_mem_clauseTokens h with h | ⟨_, _, _, _, _, _, hfault⟩
  · exact h
  · exact hfault.elim

end

/-- Guards are read from just the texts that are cut into their tokens. -/
theorem result_readCondition_eq_ok_iff (text : List Char) (c : Condition) :
    (readCondition text).result = .ok c ↔
      (Tokens.ofText clauseTokens text).values? = some c.tokens :=
  ⟨values?_of_result_whole fun _ _ => startsWith_of_condition, result_readCondition_of_values?⟩

/-- Statements are read from just the texts that are cut into their tokens. -/
theorem result_readStatement_eq_ok_iff (text : List Char) (s : Statement) :
    (readStatement text).result = .ok s ↔
      (Tokens.ofText clauseTokens text).values? = some s.tokens :=
  ⟨values?_of_result_whole fun _ _ => startsWith_of_statement, result_readStatement_of_values?⟩

/-- A text that is no guard is refused where no guard goes on like this. -/
theorem failsAt_of_readCondition {text : List Char} {error : ReadError}
    (h : (readCondition text).result = .error error) :
    FailsAt clauseTokens IsGuardRow text error :=
  failsAt_of_refuses (refuses_of_result_whole ⟨_, ⟨.newRegister, .newRegister⟩, rfl⟩
    (fun _ => refuses_condition) (fun _ _ _ => refuses_finish_of_condition) h)

/-- A text that is no statement is refused where no statement goes on like this. -/
theorem failsAt_of_readStatement {text : List Char} {error : ReadError}
    (h : (readStatement text).result = .error error) :
    FailsAt clauseTokens IsStatementRow text error :=
  failsAt_of_refuses (refuses_of_result_whole exists_isStatementRow
    (fun _ => refuses_statement) (fun _ _ _ => refuses_finish_of_statement) h)

/-! ## Exactly these rows -/

/-- If a reader reads just the texts that are cut into rows, and fails as texts of no row do, then a text
fails in one way and with nothing else. -/
theorem exists_error_iff_failsAt {α : Type} {read : List Char → Traced ReadError α}
    {row : α → List ClauseToken}
    (hreads : ∀ text a, (read text).result = .ok a →
      (Tokens.ofText clauseTokens text).values? = some (row a))
    (hfails : ∀ text error, (read text).result = .error error →
      FailsAt clauseTokens (fun ts => ∃ a, ts = row a) text error)
    (text : List Char) (e : ReadError) :
    (∃ error, (read text).result = .error error ∧ error.blame = e.blame) ↔
      FailsAt clauseTokens (fun ts => ∃ a, ts = row a) text e := by
  constructor
  · rintro ⟨error, hresult, hsame⟩
    exact (hfails text error hresult).of_blame_eq hsame.symm
  · intro h
    -- a text that is read cannot fail, and one that fails does so in one way
    cases hresult : (read text).result with
    | ok a =>
      have hcuts := (cutsInto_iff isTied_of_mem_clauseTokens).2 (hreads text a hresult)
      exact absurd ⟨a, rfl⟩ (h.not_isRow hcuts)
    | error error => exact ⟨error, rfl, (hfails text error hresult).blame_eq h⟩

/-- Statements and guards are read from just the texts whose tokens are the row of one.  Any other text
fails, and in one way: with the failure to cut it, if its tokens up to there begin a row, and otherwise
at the end of the first token with which they no longer do, or at the end of the text. -/
theorem clauses_read_exactly (text : List Char) :
    (∀ s, (readStatement text).result = .ok s ↔
      (Tokens.ofText clauseTokens text).values? = some s.tokens) ∧
    (∀ e, (∃ error, (readStatement text).result = .error error ∧ error.blame = e.blame) ↔
      FailsAt clauseTokens (fun ts => ∃ s : Statement, ts = s.tokens) text e) ∧
    (∀ c, (readCondition text).result = .ok c ↔
      (Tokens.ofText clauseTokens text).values? = some c.tokens) ∧
    ∀ e, (∃ error, (readCondition text).result = .error error ∧ error.blame = e.blame) ↔
      FailsAt clauseTokens (fun ts => ∃ c : Condition, ts = c.tokens) text e := by
  refine ⟨result_readStatement_eq_ok_iff text, ?_, result_readCondition_eq_ok_iff text, ?_⟩
  · exact exists_error_iff_failsAt (fun text s => (result_readStatement_eq_ok_iff text s).1)
      (fun _ _ => failsAt_of_readStatement) text
  · exact exists_error_iff_failsAt (fun text c => (result_readCondition_eq_ok_iff text c).1)
      (fun _ _ => failsAt_of_readCondition) text

-- the equals sign is refused before the text behind it is looked at
example : ((readStatement "emit = #".toList).result.mapError ReadError.blame) =
    .error (.inr ⟨6, 1, 6⟩) := by decide +kernel

end GuardedGrammar.RuleText
