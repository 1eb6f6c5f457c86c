/-
  The tokens of a text of rules.

  A guard stands between brackets and an action between braces, and both may go over several lines;
  what is in them is not looked at yet.  A symbol is a word without dollar signs, and may have an index
  of up to nine digits behind a dollar sign.  Line feeds count, other blanks do not.
-/
import GuardedGrammar.RuleText.ClauseToken

namespace GuardedGrammar

/-- A token of a text of rules. -/
inductive RuleToken where
  | arrow
  | guardText (text : List Char)
  | actionText (text : List Char)
  | lineEnd
  | symbol (s : Symbol)
deriving DecidableEq, Repr

namespace RuleText

/-- A text without closing marks, between an opening and a closing mark. -/
def enclosed (opening closing : Char) : Pattern :=
  .concat [.char opening, .group 1 (.star true (.one (.noneOf [closing]))), .char closing]

/-- A name, and an index that may follow it. -/
def symbolPattern : Pattern := .seq (.group 1 namePattern) (.opt true (indexPattern 2))

/-- The symbol of a match. A match with an index that denotes no number is dropped. -/
def symbolOf? (m : Match) : Option RuleToken :=
  let name := String.ofList (m.group 1)
  match m.group? 2 with
  | some digits => (indexOf? digits).map fun index => .symbol ⟨name, some index⟩
  | none => some (.symbol ⟨name, none⟩)

/-- What a text of rules consists of. -/
def ruleTokens : List (TokenRule RuleToken) :=
  [ .ofPattern (.word "->".toList) (fun _ => some .arrow),
    .ofPattern (enclosed '[' ']') (fun m => some (.guardText (m.group 1))),
    .ofPattern (enclosed '\x7b' '\x7d') (fun m => some (.actionText (m.group 1))),
    .ofPattern (.char '\n') (fun _ => some .lineEnd),
    .ofPattern (.one .blank) (fun _ => none),
    .ofPattern symbolPattern symbolOf? ]

end RuleText

end GuardedGrammar
