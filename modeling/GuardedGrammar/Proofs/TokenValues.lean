/-
  The tokens of a text as a list.

  `Tokens.values?` is the list of the tokens, for a text that can be cut to its end.  A reader takes
  tokens off the front and leaves the rest (`Tokens.StartsWith`).
-/
import GuardedGrammar.RuleText.Clause

namespace GuardedGrammar

namespace Tokens

variable {τ : Type}

/-- The values of the tokens, if the text can be cut to its end. -/
def values? : Tokens τ → Option (List τ)
  | .ended _ _ => some []
  | .stuck _ _ => none
  | .token _ value _ next => next.values?.map (value :: ·)

/-- A text without tokens has been cut to its end. -/
theorem exists_ended_of_values?_eq_nil {tokens : Tokens τ} (h : tokens.values? = some []) :
    ∃ seen place, tokens = .ended seen place := by
  cases tokens with
  | ended seen place => exact ⟨seen, place, rfl⟩
  | stuck seen error => exact nomatch h
  | token seen value place next =>
    obtain ⟨_, _, h⟩ := Option.map_eq_some_iff.1 h
    exact nomatch h

/-- The first of the values is that of the first token. -/
theorem exists_token_of_values?_eq_cons {tokens : Tokens τ} {value : τ} {values : List τ}
    (h : tokens.values? = some (value :: values)) :
    ∃ seen place next, tokens = .token seen value place next ∧ next.values? = some values := by
  cases tokens with
  | ended seen place => exact nomatch h
  | stuck seen error => exact nomatch h
  | token seen v place next =>
    obtain ⟨vs, hnext, h⟩ := Option.map_eq_some_iff.1 h
    obtain ⟨rfl, rfl⟩ := List.cons.inj h
    exact ⟨seen, place, next, rfl, hnext⟩

/-! ## What a reader takes -/

/-- Behind the first tokens, which have the given values, the rest follows. -/
def StartsWith (tokens : Tokens τ) (values : List τ) (rest : Tokens τ) : Prop :=
  tokens.values? = rest.values?.map (values ++ ·)

theorem startsWith_nil (tokens : Tokens τ) : tokens.StartsWith [] tokens := by
  unfold StartsWith
  cases tokens.values? <;> rfl

/-- To take one token leaves what comes behind it. -/
theorem startsWith_singleton (seen : List Matched) (value : τ) (place : Location)
    (next : Tokens τ) : (token seen value place next).StartsWith [value] next := rfl

/-- What is taken first, and then what is taken of the rest. -/
theorem StartsWith.append {tokens between rest : Tokens τ} {first second : List τ}
    (h : tokens.StartsWith first between) (h' : between.StartsWith second rest) :
    tokens.StartsWith (first ++ second) rest := by
  unfold StartsWith at *
  rw [h, h', Option.map_map]
  congr 1
  funext values
  exact (List.append_assoc ..).symm

/-- With one token more in front, one more is taken. -/
theorem StartsWith.behind {next rest : Tokens τ} {values : List τ} (h : next.StartsWith values rest)
    (seen : List Matched) (value : τ) (place : Location) :
    (token seen value place next).StartsWith (value :: values) rest :=
  (startsWith_singleton seen value place next).append h

/-- If the rest has values, then the text has those that are taken, and these. -/
theorem StartsWith.values?_eq {tokens rest : Tokens τ} {first last : List τ}
    (h : tokens.StartsWith first rest) (hrest : rest.values? = some last) :
    tokens.values? = some (first ++ last) := by
  unfold StartsWith at h
  rw [h, hrest]
  rfl

end Tokens

/-- The tokens of a text that can be cut to its end can be asked for. -/
theorem RuleText.result_enter_of_values? {τ : Type} {tokens : Tokens τ} {values : List τ}
    (h : tokens.values? = some values) : (enter tokens).result = .ok () := by
  cases tokens with
  | ended seen place => rfl
  | stuck seen error => exact nomatch h
  | token seen value place next => rfl

end GuardedGrammar
