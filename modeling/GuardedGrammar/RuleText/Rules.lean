/-
  Reading rules.

  A rule is a symbol, an arrow, any number of symbols, a guard in brackets and an action in braces,
  which may both be missing, and the end of the line or of the text.  A blank guard is none.  The lines
  of an action are statements, blank lines left out, and an action without statements is none.  Any
  number of line ends may stand around rules.

  Each part of a rule is read by a function of its own, and a rule leaves fewer tokens than it is given
  (`length_lt_of_rule`), so reading ends.
-/
import GuardedGrammar.RuleText.Clause
import GuardedGrammar.RuleText.RuleToken
import GuardedGrammar.Text.Lines

namespace GuardedGrammar.RuleText

/-- The tokens of a text of rules, from the one on that a reader is at. -/
abbrev RuleTokens := Tokens RuleToken

/-! ## The parts of a rule -/

/-- The left-hand side and the arrow. -/
def heading : RuleTokens → Traced ReadError (Symbol × RuleTokens)
  | .token _ (.symbol lhs) _ next => do
    enter next
    match next with
    | .token _ .arrow _ after => do
      enter after
      pure (lhs, after)
    | tokens => failAt tokens .noArrow
  | tokens => failAt tokens .noRule

/-- As many symbols as there are. -/
def symbols : RuleTokens → Traced ReadError (List Symbol × RuleTokens)
  | .token _ (.symbol s) _ next => do
    enter next
    let (rest, after) ← symbols next
    pure (s :: rest, after)
  | tokens => pure ([], tokens)

/-- The guard that the text between brackets is, if it is one. -/
def guardOf (text : List Char) : Traced ReadError (Option Condition) :=
  if Text.isBlankText text then pure none
  else do
    let c ← readCondition text
    pure (some c)

/-- The guard, if there is one. -/
def guardPart : RuleTokens → Traced ReadError (Option Condition × RuleTokens)
  | .token _ (.guardText text) _ next => do
    let c ← guardOf text
    enter next
    pure (c, next)
  | tokens => pure (none, tokens)

/-- The lines of an action that are not blank. -/
def statementLines (text : List Char) : List (List Char) :=
  (Text.lines text).filter fun line => !Text.isBlankText line

/-- The action that the text between braces is, if it is one. -/
def actionOf (text : List Char) : Traced ReadError (Option (List Statement)) := do
  let statements ← readStatements (statementLines text)
  pure (if statements.isEmpty then none else some statements)

/-- The action, if there is one. -/
def actionPart : RuleTokens → Traced ReadError (Option (List Statement) × RuleTokens)
  | .token _ (.actionText text) _ next => do
    let a ← actionOf text
    enter next
    pure (a, next)
  | tokens => pure (none, tokens)

/-- The end of a rule. -/
def lineEnd : RuleTokens → Traced ReadError RuleTokens
  | .token _ .lineEnd _ next => do
    enter next
    pure next
  | .ended seen place => pure (.ended seen place)
  | tokens => failAt tokens .noLineEnd

/-- Any number of line ends. -/
def skipLineEnds : RuleTokens → Traced ReadError RuleTokens
  | .token _ .lineEnd _ next => do
    enter next
    skipLineEnds next
  | tokens => pure tokens

/-! ## Rules -/

/-- A rule. -/
def rule (tokens : RuleTokens) : Traced ReadError (Rule × RuleTokens) := do
  let (lhs, rest) ← heading tokens
  let (rhs, rest) ← symbols rest
  let (condition, rest) ← guardPart rest
  let (action, rest) ← actionPart rest
  let rest ← lineEnd rest
  let rule : Rule := { lhs, rhs, condition, action }
  Traced.note (.ruleRead rule)
  pure (rule, rest)

/-- A rule and the line ends behind it. -/
def ruleAndGap (tokens : RuleTokens) : Traced ReadError (Rule × RuleTokens) := do
  let (r, rest) ← rule tokens
  let rest ← skipLineEnds rest
  pure (r, rest)

/-! No reader puts tokens back, and a heading takes some away. So reading one rule after the other
comes to an end. -/

theorem length_lt_of_heading {tokens : RuleTokens} {lhs : Symbol} {rest : RuleTokens}
    (h : (heading tokens).result = .ok (lhs, rest)) : rest.length < tokens.length := by
  unfold heading at h
  split at h
  · simp only [Traced.result_bind_eq_ok_iff] at h
    obtain ⟨_, _, h⟩ := h
    split at h
    · simp only [Traced.result_bind_eq_ok_iff] at h
      obtain ⟨_, _, h⟩ := h
      cases h
      simp only [Tokens.length]
      omega
    · cases h
  · cases h

theorem length_le_of_symbols {tokens : RuleTokens} {rhs : List Symbol} {rest : RuleTokens}
    (h : (symbols tokens).result = .ok (rhs, rest)) : rest.length ≤ tokens.length := by
  fun_induction symbols tokens generalizing rhs with
  | case1 _ _ _ next ih =>
    simp only [Traced.result_bind_eq_ok_iff] at h
    obtain ⟨_, _, ⟨l, r⟩, hr, h⟩ := h
    cases h
    have := ih hr
    dsimp only [Tokens.length] at *
    omega
  | case2 => cases h; exact Nat.le_refl _

theorem length_le_of_guardPart {tokens : RuleTokens} {c : Option Condition} {rest : RuleTokens}
    (h : (guardPart tokens).result = .ok (c, rest)) : rest.length ≤ tokens.length := by
  unfold guardPart at h
  split at h
  · simp only [Traced.result_bind_eq_ok_iff] at h
    obtain ⟨_, _, _, _, h⟩ := h
    cases h
    simp only [Tokens.length]
    omega
  · cases h; exact Nat.le_refl _

theorem length_le_of_actionPart {tokens : RuleTokens} {a : Option (List Statement)}
    {rest : RuleTokens} (h : (actionPart tokens).result = .ok (a, rest)) :
    rest.length ≤ tokens.length := by
  unfold actionPart at h
  split at h
  · simp only [Traced.result_bind_eq_ok_iff] at h
    obtain ⟨_, _, _, _, h⟩ := h
    cases h
    simp only [Tokens.length]
    omega
  · cases h; exact Nat.le_refl _

theorem length_le_of_lineEnd {tokens rest : RuleTokens}
    (h : (lineEnd tokens).result = .ok rest) : rest.length ≤ tokens.length := by
  unfold lineEnd at h
  split at h
  · simp only [Traced.result_bind_eq_ok_iff] at h
    obtain ⟨_, _, h⟩ := h
    cases h
    simp only [Tokens.length]
    omega
  · cases h; exact Nat.le_refl _
  · cases h

theorem length_le_of_skipLineEnds {tokens rest : RuleTokens}
    (h : (skipLineEnds tokens).result = .ok rest) : rest.length ≤ tokens.length := by
  fun_induction skipLineEnds tokens with
  | case1 _ _ next ih =>
    simp only [Traced.result_bind_eq_ok_iff] at h
    obtain ⟨_, _, h⟩ := h
    have := ih h
    simp only [Tokens.length]
    omega
  | case2 => cases h; exact Nat.le_refl _

/-- A rule leaves fewer tokens than it is given. -/
theorem length_lt_of_rule {tokens : RuleTokens} {r : Rule} {rest : RuleTokens}
    (h : (rule tokens).result = .ok (r, rest)) : rest.length < tokens.length := by
  simp only [rule, Traced.result_bind_eq_ok_iff] at h
  obtain ⟨⟨_, _⟩, h₁, ⟨_, _⟩, h₂, ⟨_, _⟩, h₃, ⟨_, _⟩, h₄, _, h₅, _, _, h⟩ := h
  cases h
  have := length_lt_of_heading h₁
  have := length_le_of_symbols h₂
  have := length_le_of_guardPart h₃
  have := length_le_of_actionPart h₄
  have := length_le_of_lineEnd h₅
  dsimp only at *
  omega

/-- A rule with the line ends behind it takes tokens away. -/
theorem length_lt_of_ruleAndGap {tokens : RuleTokens} {r : Rule} {rest : RuleTokens}
    (h : (ruleAndGap tokens).result = .ok (r, rest)) : rest.length < tokens.length := by
  simp only [ruleAndGap, Traced.result_bind_eq_ok_iff] at h
  obtain ⟨⟨_, _⟩, h₁, _, h₂, h⟩ := h
  cases h
  have := length_lt_of_rule h₁
  have := length_le_of_skipLineEnds h₂
  dsimp only at *
  omega

/-- Whether the text is at its end. -/
def atEnd : RuleTokens → Bool
  | .ended _ _ => true
  | _ => false

/-- The rules up to the end of the text; a reader is at the first token of a rule, or at the end. -/
def rules (tokens : RuleTokens) : Traced ReadError (List Rule) :=
  if atEnd tokens then pure []
  else
    let first := ruleAndGap tokens
    match _h : first.result with
    | .error e => ⟨first.events, .error e⟩
    | .ok (r, rest) =>
      let others := rules rest
      ⟨first.events ++ others.events, others.result.map (r :: ·)⟩
termination_by tokens.length
decreasing_by exact length_lt_of_ruleAndGap _h

/-- Reads a text of rules. -/
def readRules (text : List Char) : Traced ReadError (List Rule) := do
  let tokens := Tokens.ofText ruleTokens text
  enter tokens
  let tokens ← skipLineEnds tokens
  rules tokens

end GuardedGrammar.RuleText
