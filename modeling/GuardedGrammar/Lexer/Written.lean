/-
  Token rules from written patterns.

  A written pattern is put into parentheses and tied to the start of the text ahead, and what is then
  read is the text as a whole.  Parentheses that the pattern closes without having opened them, and
  opens again, therefore take part in the pairing, and an alternative behind them is not tied: it is
  searched for further on in the text.
-/
import GuardedGrammar.Lexer.Basic
import GuardedGrammar.Pattern.Program
import GuardedGrammar.Pattern.Reader

namespace GuardedGrammar.TokenRule

/-- A written pattern, tied to the start of the text ahead. -/
def tied (pattern : String) : String := "^(?:" ++ pattern ++ ")"

/-- The program of a written pattern, tied to the start of the text ahead. -/
def program? (pattern : String) : Option Program :=
  (Pattern.ofText? (tied pattern).toList).map Program.ofPattern

/-- The rule for a written pattern. -/
def ofText? {τ : Type} (pattern : String) (produce : Match → Option τ) : Option (TokenRule τ) :=
  (program? pattern).map fun program => ⟨program.find?, produce⟩

end GuardedGrammar.TokenRule
