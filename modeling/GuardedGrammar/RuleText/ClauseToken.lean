/-
  The tokens of guards and statements.

  A word with a dot in it is an attribute: what stands before the LAST dot that has something on both
  sides says whose, a name or a dollar sign with up to nine digits, and what stands after it is its
  name.  A literal stands between double quotes on one line, and nothing in it is special.
-/
import GuardedGrammar.Lexer.Basic
import GuardedGrammar.Rule.Printer

namespace GuardedGrammar

/-- A token of a guard or a statement. -/
inductive ClauseToken where
  | attributeRef (ref : AttributeRef)
  | newRegister
  | emit
  | literal (text : String)
  | equals
deriving DecidableEq, Repr

namespace ClauseToken

/-- How messages name a token. -/
def describe : ClauseToken → String
  | attributeRef ref => "attribute " ++ ref.render
  | newRegister => "`<newReg>`"
  | emit => "`emit`"
  | literal text => "literal " ++ Text.quoted text
  | equals => "`=`"

/-- The expression that a token is, if it is one. -/
def expression? : ClauseToken → Option Expression
  | attributeRef ref => some (.read ref)
  | newRegister => some .newRegister
  | literal text => some (.literal text)
  | emit => none
  | equals => none

end ClauseToken

namespace RuleText

/-- One or more characters of a name. -/
def namePattern : Pattern := .plus true (.one .nameChar)

/-- A dollar sign and one to nine digits, which are the group of the given number. -/
def indexPattern (number : Nat) : Pattern :=
  .seq (.char '$') (.group number (.between true (.one .digit) 1 (some 9)))

/-- Whose attribute it is, a dot, and the name of the attribute. -/
def attributePattern : Pattern :=
  .concat [.alt (.group 1 namePattern) (indexPattern 2), .char '.', .group 3 namePattern]

/-- A text without double quotes and line feeds, between double quotes. -/
def literalPattern : Pattern :=
  .concat [.char '"', .group 1 (.star true (.one (.noneOf ['"', '\n']))), .char '"']

/-- The number that the digits of an index denote; digits of other scripts denote none. -/
def indexOf? (digits : List Char) : Option Nat := Text.readNumber? digits

/-- Whose attribute a match is about. -/
def targetOf? (m : Match) : Option Target :=
  match m.group? 1, m.group? 2 with
  | some name, _ => some (.named (String.ofList name))
  | none, some digits => (indexOf? digits).map .numbered
  | none, none => none

/-- The attribute of a match. A match with an index that denotes no number is dropped. -/
def attributeOf? (m : Match) : Option ClauseToken :=
  (targetOf? m).map fun target => .attributeRef ⟨target, String.ofList (m.group 3)⟩

/-- What guards and statements consist of. -/
def clauseTokens : List (TokenRule ClauseToken) :=
  [ .ofPattern attributePattern attributeOf?,
    .ofPattern (.word "<newReg>".toList) (fun _ => some .newRegister),
    .ofPattern (.word "emit".toList) (fun _ => some .emit),
    .ofPattern literalPattern (fun m => some (.literal (String.ofList (m.group 1)))),
    .ofPattern (.char '=') (fun _ => some .equals),
    .ofPattern (.one .blank) (fun _ => none) ]

end RuleText

end GuardedGrammar
