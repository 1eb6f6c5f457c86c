/-
  The tokens of a text.

  `Tokens` is the cutting of a text as a reader of it sees it: the tokens in order, each with the
  place behind it and the matches that were made on the way to it, those of dropped text included.
-/
import GuardedGrammar.Lexer.Basic

namespace GuardedGrammar

/-- The tokens from some place on. -/
inductive Tokens (τ : Type) where
  /-- The text is at its end, after the matches that were dropped. -/
  | ended (seen : List Matched) (place : Location)
  /-- The text cannot be cut any further. -/
  | stuck (seen : List Matched) (error : UnknownToken)
  /-- A token, the place behind it, and the tokens that follow. -/
  | token (seen : List Matched) (value : τ) (place : Location) (next : Tokens τ)

namespace Lexing

variable {τ : Type}

/-- The tokens of a cutting; `dropped` are the matches dropped since the last token, latest first. -/
def tokensFrom (dropped : List Matched) : Lexing τ → Tokens τ
  | .finished place => .ended dropped.reverse place
  | .stuck error _ => .stuck dropped.reverse error
  | .step m none next => next.tokensFrom (m :: dropped)
  | .step m (some t) next =>
    .token (m :: dropped).reverse t (m.location.advanceOver m.text) (next.tokensFrom [])

/-- The tokens of a cutting. -/
def tokens (l : Lexing τ) : Tokens τ := l.tokensFrom []

end Lexing

namespace Tokens

variable {τ : Type}

/-- The tokens of a text. -/
def ofText (rules : List (TokenRule τ)) (text : List Char) : Tokens τ :=
  (lex rules text).tokens

/-- The matches that are made when the next token is asked for. -/
def seen : Tokens τ → List Matched
  | .ended seen _ => seen
  | .stuck seen _ => seen
  | .token seen _ _ _ => seen

/-- The place behind the next token. -/
def place : Tokens τ → Location
  | .ended _ place => place
  | .stuck _ error => error.location
  | .token _ _ place _ => place

/-- How many tokens there are. -/
def length : Tokens τ → Nat
  | .ended _ _ => 0
  | .stuck _ _ => 0
  | .token _ _ _ next => next.length + 1

end Tokens

end GuardedGrammar
