/-
  Grammars from files of rules.
-/
import GuardedGrammar.File
import GuardedGrammar.Grammar.Build
import GuardedGrammar.RuleText.Rules

namespace GuardedGrammar

/-- Why there is no grammar to be had from a file. -/
inductive GrammarFileError where
  | unreadable (problem : FileProblem)
  | badText (error : ReadError)
  | badRules (error : BuildError)
deriving DecidableEq, Repr

namespace GrammarFileError

def message : GrammarFileError → String
  | unreadable problem => "i/o error: " ++ problem.describe
  | badText error => error.message
  | badRules error => error.message

/-- The message, and what is behind it, outermost first. -/
def causes : GrammarFileError → List String
  | unreadable problem => [message (.unreadable problem), problem.describe]
  | e => [e.message]

end GrammarFileError

namespace Grammar

/-- The grammar of a text of rules. -/
def ofText (text : List Char) : Traced GrammarFileError Grammar := do
  let rules ← (RuleText.readRules text).mapError .badText
  (build rules).mapError .badRules

/-- The grammar of a file of rules. -/
def ofFile (content : FileContent) : Traced GrammarFileError Grammar := do
  let text ← (Traced.ofExcept content.text).mapError .unreadable
  ofText text

end Grammar

end GuardedGrammar
