/-
  Tables drawn with lines around their cells.

  Every column is as wide as its longest cell, cells stand at the right of their columns, and rows that
  are too short end in empty cells.  A border runs above every row and below the last.  Widths count
  characters.

  Main statement: `length_padLeft`, a cell fills its column.
-/

namespace GuardedGrammar.Box

/-- A character several times over. -/
def fill (c : Char) (width : Nat) : String := String.ofList (List.replicate width c)

/-- A text with blanks in front, so that it is as long as asked for unless it is longer already. -/
def padLeft (width : Nat) (text : String) : String := fill ' ' (width - text.length) ++ text

theorem length_padLeft (width : Nat) (text : String) (h : text.length ≤ width) :
    (padLeft width text).length = width := by
  simp only [padLeft, fill, String.length_append, String.length_ofList, List.length_replicate]
  omega

/-- The cell of a row in a column, which is empty if the row is too short. -/
def cellAt (row : List String) (column : Nat) : String := row[column]?.getD ""

/-- How many columns the rows have. -/
def columnCount (rows : List (List String)) : Nat :=
  (rows.map List.length).foldr max 0

/-- How wide a column is. -/
def width (rows : List (List String)) (column : Nat) : Nat :=
  (rows.map fun row => (cellAt row column).length).foldr max 0

/-- The widths of all columns. -/
def widths (rows : List (List String)) : List Nat :=
  (List.range (columnCount rows)).map (width rows)

/-- The line between rows. -/
def border (widths : List Nat) : String :=
  "+" ++ String.join (widths.map fun w => fill '-' w ++ "+")

/-- The line of a row. -/
def line (widths : List Nat) (row : List String) : String :=
  "|" ++ String.join (widths.zipIdx.map fun (w, column) => padLeft w (cellAt row column) ++ "|")

/-- The lines of the drawing. -/
def lines (rows : List (List String)) : List String :=
  let w := widths rows
  rows.flatMap (fun row => [border w, line w row]) ++ [border w]

/-- The drawing. -/
def draw (rows : List (List String)) : String :=
  String.join ((lines rows).map (· ++ "\n"))

end GuardedGrammar.Box
