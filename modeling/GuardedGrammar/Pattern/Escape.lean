/-
  What a backslash makes of the text after it.

  * `d` and `s` are the decimal digits and the white space, `D` and `S` all but those;
  * `a`, `f`, `n`, `r`, `t` and `v` are controls;
  * `x`, `u` and `U` give a character by its code point, in two, four or eight hexadecimal digits, or
    in any number of them in braces;
  * any other character of ASCII that is no letter, digit or angle bracket stands for itself.
-/
import GuardedGrammar.Pattern.CharClass

namespace GuardedGrammar.Pattern

/-- A character or a class, as it may be written in one piece. -/
inductive Atom where
  | char (c : Char)
  | set (k : CharClass)
deriving DecidableEq, Repr

namespace Atom

/-- The characters that are meant. -/
def toClass : Atom → CharClass
  | char c => .only c
  | set k => k

/-- The range from one atom to another, which have to be characters in ascending order. -/
def rangeTo? : Atom → Atom → Option CharClass
  | char first, char last => if first ≤ last then some (.range first last) else none
  | _, _ => none

end Atom

/-- The value of a hexadecimal digit. -/
def hexValue? (c : Char) : Option Nat :=
  if c.isDigit then some (c.toNat - 0x30)
  else if 'a' ≤ c ∧ c ≤ 'f' then some (c.toNat - 0x61 + 10)
  else if 'A' ≤ c ∧ c ≤ 'F' then some (c.toNat - 0x41 + 10)
  else none

/-- The character whose code point is given in hexadecimal digits, of which there has to be one. -/
def charOfHex? (digits : List Char) : Option Char := do
  let values ← digits.mapM hexValue?
  let n := values.foldl (fun n d => 16 * n + d) 0
  if !digits.isEmpty && n.isValidChar then some (Char.ofNat n) else none

/-- A character given by its code point, in so many digits or in braces, and the text behind it. -/
def coded? (digits : Nat) : List Char → Option (Atom × List Char)
  | '\x7b' :: rest => do
    let c ← charOfHex? (rest.takeWhile (· != '\x7d'))
    match rest.dropWhile (· != '\x7d') with
    | _ :: rest => return (.char c, rest)
    | [] => none
  | text =>
    if text.length < digits then none
    else (charOfHex? (text.take digits)).map fun c => (.char c, text.drop digits)

/-- What a backslash makes of the text after it, and the text that follows. -/
def escaped? : List Char → Option (Atom × List Char)
  | [] => none
  | c :: rest =>
    match c with
    | 'd' => some (.set .digit, rest)
    | 'D' => some (.set CharClass.digit.complement, rest)
    | 's' => some (.set .blank, rest)
    | 'S' => some (.set .visible, rest)
    | 'a' => some (.char '\x07', rest)
    | 'f' => some (.char '\x0c', rest)
    | 'n' => some (.char '\n', rest)
    | 'r' => some (.char '\r', rest)
    | 't' => some (.char '\t', rest)
    | 'v' => some (.char '\x0b', rest)
    | 'x' => coded? 2 rest
    | 'u' => coded? 4 rest
    | 'U' => coded? 8 rest
    | c =>
      if 0x80 ≤ c.toNat || c.isAlphanum || c == '<' || c == '>' then none
      else some (.char c, rest)

end GuardedGrammar.Pattern
