/-
  The marks of a written pattern.

  Characters stand for themselves, except that

  * a dot is any character but the line feed, and inside `(?s: )` any character at all;
  * brackets hold a class, and a backslash makes a class or a character of what follows it;
  * parentheses group and are numbered from one in the order in which they open; `(?: )` groups
    without a number;
  * a bar separates alternatives;
  * a star, a plus sign, a question mark and counts in braces repeat what is before them, as often as
    possible, or as seldom as possible with a question mark behind;
  * a caret and a dollar sign stand for the start and the end of the text, and so do `A` and `z` with
    a backslash.

  `marks?` cuts a text into these marks.  A text has none if a class, an escape or a count is not
  complete, or if a range or a pair of counts runs backwards.
-/
import GuardedGrammar.Pattern.Brackets

namespace GuardedGrammar.Pattern

/-- The pieces that a written pattern consists of. -/
inductive Mark where
  /-- A character or a class in one piece. -/
  | atom (a : Atom)
  /-- A class in brackets, and how deeply it is nested. -/
  | brackets (k : CharClass) (depth : Nat)
  /-- The start of the text. -/
  | start
  /-- The end of the text. -/
  | finish
  /-- The dot. -/
  | dot
  /-- The opening of a group, which may get a number, and may make the dot stand for all. -/
  | opening (counted dotAll : Bool)
  /-- The end of a group. -/
  | closing
  /-- The bar between alternatives. -/
  | bar
  /-- A repetition of what comes before. -/
  | repeated (least : Nat) (most : Option Nat) (greedy : Bool)
deriving DecidableEq, Repr

/-- A repetition followed by a question mark is reluctant. -/
def repetition (least : Nat) (most : Option Nat) : List Char → Mark × List Char
  | '?' :: rest => (.repeated least most false, rest)
  | rest => (.repeated least most true, rest)

/-- A number at the beginning of a text; blanks may stand around it. -/
def count? (text : List Char) : Option (Nat × List Char) := do
  let text := Text.trimStart text
  let n ← Text.readDigits? (text.takeWhile Char.isDigit)
  return (n, Text.trimStart (text.dropWhile Char.isDigit))

/-- A repetition by counts, after its opening brace. -/
def counted? (text : List Char) : Option (Mark × List Char) := do
  let (least, rest) ← count? text
  match rest with
  | '\x7d' :: rest => return repetition least (some least) rest
  | ',' :: '\x7d' :: rest => return repetition least none rest
  | ',' :: rest =>
    let (most, rest) ← count? rest
    match rest with
    | '\x7d' :: rest => if least ≤ most then return repetition least (some most) rest else none
    | _ => none
  | _ => none

/-- The first mark of a text that is not empty, and the text behind it. -/
def mark? : List Char → Option (Mark × List Char)
  | [] => none
  | '\\' :: 'A' :: rest => some (.start, rest)
  | '\\' :: 'z' :: rest => some (.finish, rest)
  | '\\' :: rest => (escaped? rest).map fun (a, rest) => (.atom a, rest)
  | '.' :: rest => some (.dot, rest)
  | '[' :: rest => (brackets? rest).map fun (k, rest) => (.brackets k.set k.depth, rest)
  | '(' :: '?' :: ':' :: rest => some (.opening false false, rest)
  | '(' :: '?' :: 's' :: ':' :: rest => some (.opening false true, rest)
  | '(' :: '?' :: _ => none
  | '(' :: rest => some (.opening true false, rest)
  | ')' :: rest => some (.closing, rest)
  | '|' :: rest => some (.bar, rest)
  | '*' :: rest => some (repetition 0 none rest)
  | '+' :: rest => some (repetition 1 none rest)
  | '?' :: rest => some (repetition 0 (some 1) rest)
  | '\x7b' :: rest => counted? rest
  | '^' :: rest => some (.start, rest)
  | '$' :: rest => some (.finish, rest)
  | c :: rest => some (.atom (.char c), rest)

/-- The marks of a text.  Each takes at least one character, so the length of the text is fuel enough. -/
def marksFrom? : Nat → List Char → Option (List Mark)
  | _, [] => some []
  | 0, _ => none
  | fuel + 1, text => do
    let (m, rest) ← mark? text
    return m :: (← marksFrom? fuel rest)

/-- The marks of a text. -/
def marks? (text : List Char) : Option (List Mark) :=
  marksFrom? text.length text

end GuardedGrammar.Pattern
