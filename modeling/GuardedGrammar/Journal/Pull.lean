/-
  Asking for tokens.

  A reader that asks for the next token makes the matches that lead to it, which are events, and fails
  if the text cannot be cut there.  Main statement: `result_enter`, asking fails exactly there.
-/
import GuardedGrammar.Journal.Traced
import GuardedGrammar.Lexer.Tokens

namespace GuardedGrammar.Tokens

variable {τ : Type}

/-- Asks for the first of the tokens that are ahead. -/
def enter : Tokens τ → Traced UnknownToken Unit
  | .stuck seen error => ⟨seen.map .matched, .error error⟩
  | .ended seen _ => ⟨seen.map .matched, .ok ()⟩
  | .token seen _ _ _ => ⟨seen.map .matched, .ok ()⟩

/-- A row of tokens cannot be entered if the text is stuck before its first one. -/
theorem result_enter (t : Tokens τ) (e : UnknownToken) :
    t.enter.result = .error e ↔ ∃ seen, t = .stuck seen e := by
  cases t <;> simp [enter]

/-- What asking for all tokens gives: the tokens and the end token, or the tokens up to a failure. -/
def items (endToken : τ) : Tokens τ → List (Except UnknownToken τ)
  | .ended _ _ => [.ok endToken]
  | .stuck _ error => [.error error]
  | .token _ value _ next => .ok value :: next.items endToken

/-- The matches that asking for all tokens makes, those for each token in a list of their own. -/
def matchesByToken : Tokens τ → List (List Matched)
  | .ended seen _ => [seen]
  | .stuck seen _ => [seen]
  | .token seen _ _ next => seen :: next.matchesByToken

/-- Asks for all tokens but the first, up to a failure, which is left to whoever looks at the items. -/
def enterRest {ε : Type} (t : Tokens τ) : Traced ε Unit :=
  ⟨t.matchesByToken.tail.flatten.map .matched, .ok ()⟩

end GuardedGrammar.Tokens
