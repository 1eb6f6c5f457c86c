/-
  A small language of instructions, whose words are terminals.

  The words are the plus sign, the equals sign, `ind`, and operands: `C`, `R` or `M` with something
  visible right behind it, which is the value of a constant, a register or a place in memory.  Words
  that are run together are taken apart, the longest first.  The end marker follows the last word, as
  often as it is asked for.

  Lines that are blank or begin with two strokes are comments and can be left out before.
-/
import GuardedGrammar.Journal.Pull
import GuardedGrammar.Parse.Session
import GuardedGrammar.Text.Lines

namespace GuardedGrammar.Instruction

/-! ## Comments -/

/-- Whether a line says something. -/
def isKept (line : List Char) : Bool :=
  match Text.trimStart line with
  | [] => false
  | '/' :: '/' :: _ => false
  | _ => true

/-- The text without its blank lines and comments. -/
def stripComments (text : List Char) : List Char :=
  Text.joinLines ((Text.lines text).filter isKept)

/-! ## Words -/

/-- The attribute that holds the value of an operand. -/
def valueName : String := "value"

/-- A terminal with a value. -/
def operand (name : String) (value : List Char) : Terminal where
  name := name
  attributes := .ofList [(valueName, String.ofList value)]

/-- A letter with something visible behind it. -/
def operandPattern (letter : Char) : Pattern :=
  .seq (.char letter) (.group 1 (.plus true (.one .visible)))

/-- What instructions consist of. -/
def words : List (TokenRule Terminal) :=
  [ .ofPattern (.char '+') (fun _ => some { name := "+" }),
    .ofPattern (.char '=') (fun _ => some { name := "=" }),
    .ofPattern (.word "ind".toList) (fun _ => some { name := "ind" }),
    .ofPattern (operandPattern 'C') (fun m => some (operand "C" (m.group 1))),
    .ofPattern (.one .blank) (fun _ => none),
    .ofPattern (operandPattern 'R') (fun m => some (operand "register" (m.group 1))),
    .ofPattern (operandPattern 'M') (fun m => some (operand "memory" (m.group 1))) ]

/-- The end marker. -/
def endTerminal : Terminal := { name := endName }

/-! ## Terminals -/

/-- The terminals of a text, up to the end marker or the place where the text cannot be cut.  It is an
error if that is the case before the first. -/
def terminals (text : List Char) : Traced UnknownToken (List (Except UnknownToken Terminal)) := do
  let tokens := Tokens.ofText words text
  tokens.enter
  tokens.enterRest
  pure (tokens.items endTerminal)

/-- The matches of asking for a terminal; the first has been asked for when the text was opened. -/
def matchesAt (seen : List (List Matched)) (i : Nat) : List Matched :=
  if i = 0 then [] else (seen[i]?).getD []

/-- A source that gives the items of a list, and then the last of them again and again. -/
def sourceOf (items : List (Except UnknownToken Terminal)) (seen : List (List Matched)) :
    Source := fun i =>
  { seen := matchesAt seen i
    item := (items[i]?.or items.getLast?).map (·.mapError .unknownToken) }

/-- The terminals of a text as a source. -/
def source (text : List Char) : Traced UnknownToken Source := do
  let tokens := Tokens.ofText words text
  tokens.enter
  pure (sourceOf (tokens.items endTerminal) tokens.matchesByToken)

end GuardedGrammar.Instruction
