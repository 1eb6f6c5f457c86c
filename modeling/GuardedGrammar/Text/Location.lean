/-
  Positions in a text.

  A location counts three things at once: the bytes read (in UTF-8), the line, and the characters
  read on that line.  Lines count from one and columns from zero, and only a line feed starts a new
  line, so a carriage return is an ordinary character of its line.

  Main statements: `advanceOver_append`, reading a text in two parts is reading it in one, and
  `offset_advanceOver`, the offset grows by the bytes of the text.
-/
import GuardedGrammar.Text.Bytes

namespace GuardedGrammar

/-- A place in a text: bytes before it, its line (from 1), and characters before it on the line. -/
structure Location where
  offset : Nat := 0
  line : Nat := 1
  column : Nat := 0
deriving DecidableEq, Repr

namespace Location

/-- The location after one more character. -/
def advance (l : Location) (c : Char) : Location :=
  if c = '\n' then ⟨l.offset + c.utf8Size, l.line + 1, 0⟩
  else ⟨l.offset + c.utf8Size, l.line, l.column + 1⟩

/-- The location after a whole text. -/
def advanceOver (l : Location) (text : List Char) : Location :=
  text.foldl advance l

/-- How messages name a location. -/
def describe (l : Location) : String :=
  "offset " ++ toString l.offset ++ " line " ++ toString l.line ++ " column " ++ toString l.column

@[simp] theorem advanceOver_nil (l : Location) : l.advanceOver [] = l := rfl

@[simp] theorem advanceOver_cons (l : Location) (c : Char) (text : List Char) :
    l.advanceOver (c :: text) = (l.advance c).advanceOver text := rfl

theorem advanceOver_append (l : Location) (first second : List Char) :
    l.advanceOver (first ++ second) = (l.advanceOver first).advanceOver second := by
  simp [advanceOver]

theorem offset_advance (l : Location) (c : Char) : (l.advance c).offset = l.offset + c.utf8Size := by
  unfold advance
  split <;> rfl

/-- The offset grows by the bytes of a text. -/
theorem offset_advanceOver (l : Location) (text : List Char) :
    (l.advanceOver text).offset = l.offset + Text.byteSize text := by
  induction text generalizing l with
  | nil => rfl
  | cons c rest ih => rw [advanceOver_cons, ih, offset_advance, Text.byteSize_cons, Nat.add_assoc]

end Location

end GuardedGrammar
