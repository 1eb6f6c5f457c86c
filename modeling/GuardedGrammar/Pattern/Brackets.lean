/-
  Classes in brackets.

  Brackets hold characters, escapes, ranges with a hyphen, classes in brackets and classes by name, all
  of them together, and all but these if a caret is in front.  A closing bracket right after the
  opening one stands for itself, and so does a hyphen at either end.  Two ampersands, hyphens or tildes
  stand between classes of which the common characters are meant, those of the first alone, or those
  of one of them alone; of several such operations the first is carried out first.

  A class is read with a stack of the brackets that are open.  How deeply it is nested is read along
  with it, for there is a limit to that.
-/
import GuardedGrammar.Pattern.Escape

namespace GuardedGrammar.Pattern

/-! ## Nesting -/

/-- How deeply a list is nested whose members are nested so deeply: several members are nested more
deeply than one. -/
def nesting : List Nat → Nat
  | [] => 0
  | [depth] => depth
  | depths => depths.foldl max 0 + 1

/-- A class that has been read, and how deeply it is nested. -/
structure ClassPart where
  set : CharClass
  depth : Nat := 0

/-! ## Open brackets -/

/-- What may be done with two classes. -/
inductive ClassOperation where
  /-- The characters of both. -/
  | inter
  /-- The characters of the first alone. -/
  | diff
  /-- The characters of either one alone. -/
  | symmDiff
deriving DecidableEq, Repr

/-- The outcome of an operation. -/
def ClassOperation.apply : ClassOperation → CharClass → CharClass → CharClass
  | inter => .inter
  | diff => .diff
  | symmDiff => .symmDiff

/-- Brackets that are not closed yet: whether all but their characters are meant, the class in front of
the latest operation, and what has been read since, latest first. -/
structure OpenBrackets where
  negated : Bool := false
  left : Option (ClassPart × ClassOperation) := none
  items : List ClassPart := []

namespace OpenBrackets

/-- Adds what has been read next. -/
def push (b : OpenBrackets) (item : ClassPart) : OpenBrackets := { b with items := item :: b.items }

/-- All that has been read since the latest operation. -/
def operand (b : OpenBrackets) : ClassPart :=
  ⟨.unions (b.items.map (·.set)), nesting (b.items.map (·.depth))⟩

/-- All that has been read. -/
def content (b : OpenBrackets) : ClassPart :=
  match b.left with
  | none => b.operand
  | some (left, operation) =>
    ⟨operation.apply left.set b.operand.set, max left.depth b.operand.depth + 1⟩

/-- Goes on behind an operation. -/
def operate (b : OpenBrackets) (operation : ClassOperation) : OpenBrackets :=
  { b with left := some (b.content, operation), items := [] }

/-- The class that the brackets stand for, once they are closed. -/
def closed (b : OpenBrackets) : ClassPart :=
  let content := b.content
  ⟨if b.negated then content.set.complement else content.set, content.depth + 1⟩

end OpenBrackets

/-! ## Reading -/

/-- The classes that have a name. -/
def classOfName? (name : String) : Option CharClass :=
  match name with
  | "alnum" => some (.unions [.range '0' '9', .range 'A' 'Z', .range 'a' 'z'])
  | "alpha" => some (.unions [.range 'A' 'Z', .range 'a' 'z'])
  | "ascii" => some (.range '\x00' '\x7f')
  | "blank" => some (.ofList ['\t', ' '])
  | "cntrl" => some (.unions [.range '\x00' '\x1f', .only '\x7f'])
  | "digit" => some (.range '0' '9')
  | "graph" => some (.range '!' '~')
  | "lower" => some (.range 'a' 'z')
  | "print" => some (.range ' ' '~')
  | "punct" => some (.unions [.range '!' '/', .range ':' '@', .range '[' '\x60', .range '\x7b' '~'])
  | "space" => some (.unions [.range '\t' '\r', .only ' '])
  | "upper" => some (.range 'A' 'Z')
  | "word" => some (.unions [.range '0' '9', .range 'A' 'Z', .only '_', .range 'a' 'z'])
  | "xdigit" => some (.unions [.range '0' '9', .range 'A' 'F', .range 'a' 'f'])
  | _ => none

/-- A class by name, after its opening bracket: the name stands between colons, with a caret in front
if all but its characters are meant. -/
def namedClass? : List Char → Option (CharClass × List Char)
  | ':' :: rest =>
    let (negated, rest) := match rest with
      | '^' :: rest => (true, rest)
      | _ => (false, rest)
    match rest.dropWhile (· != ':') with
    | ':' :: ']' :: after =>
      (classOfName? (String.ofList (rest.takeWhile (· != ':')))).map fun k =>
        (if negated then k.complement else k, after)
    | _ => none
  | _ => none

/-- A character or an escape in brackets. -/
def bracketAtom? : List Char → Option (Atom × List Char)
  | [] => none
  | '\\' :: rest => escaped? rest
  | c :: rest => some (.char c, rest)

/-- An atom, or a range of two with a hyphen between them. -/
def bracketRange? (text : List Char) : Option (CharClass × List Char) := do
  let (first, rest) ← bracketAtom? text
  match rest with
  | '-' :: c :: after =>
    if c = ']' ∨ c = '-' then return (first.toClass, rest)
    let (last, rest) ← bracketAtom? (c :: after)
    return (← first.rangeTo? last, rest)
  | _ => return (first.toClass, rest)

/-- What comes first in brackets, after the opening one: a caret, then hyphens, or a closing bracket
that stands for itself. -/
def openBrackets (text : List Char) : OpenBrackets × List Char :=
  let (negated, text) := match text with
    | '^' :: rest => (true, rest)
    | _ => (false, text)
  let only (c : Char) : ClassPart := { set := .only c }
  match (text.takeWhile (· == '-')).map only, text.dropWhile (· == '-') with
  | [], ']' :: rest => ({ negated, items := [only ']'] }, rest)
  | items, rest => ({ negated, items }, rest)

/-- Reads up to the closing bracket of the outermost open brackets; `b` are the innermost open ones, and
`outer` those around them.  Each step reads at least one character. -/
def bracketsFrom? : (fuel : Nat) → List Char → (b : OpenBrackets) → (outer : List OpenBrackets) →
    Option (ClassPart × List Char)
  | 0, _, _, _ => none
  | fuel + 1, text, b, outer =>
    match text with
    | [] => none
    | ']' :: rest =>
      match outer with
      | [] => some (b.closed, rest)
      | around :: outer => bracketsFrom? fuel rest (around.push b.closed) outer
    | '[' :: rest =>
      match namedClass? rest with
      | some (k, rest) => bracketsFrom? fuel rest (b.push { set := k }) outer
      | none =>
        let (inner, rest) := openBrackets rest
        bracketsFrom? fuel rest inner (b :: outer)
    | '&' :: '&' :: rest => bracketsFrom? fuel rest (b.operate .inter) outer
    | '-' :: '-' :: rest => bracketsFrom? fuel rest (b.operate .diff) outer
    | '~' :: '~' :: rest => bracketsFrom? fuel rest (b.operate .symmDiff) outer
    | text => do
      let (k, rest) ← bracketRange? text
      bracketsFrom? fuel rest (b.push { set := k }) outer

/-- A class in brackets, after the opening one, and the text behind it. -/
def brackets? (text : List Char) : Option (ClassPart × List Char) :=
  let (b, rest) := openBrackets text
  bracketsFrom? (rest.length + 1) rest b []

end GuardedGrammar.Pattern
