/-
  What a drawn table looks like.

  A drawing is made of parts that are closed by marks: dashes by corners, cells by bars, and lines by
  line feeds (`closed`).  Parts without the mark in them are found again where the marks are
  (`splitOnP_closed`).  A cell may have bars in it, though, so that the bars of a line do not say where
  its cells end; the corners of the border do, as the cells of a row are as long as the dashes above
  them (`map_length_padded`).  Hence a line is cut together with its border (`cut`).

  Main statement: `draw_shows_rows`.
-/
import GuardedGrammar.Listing.Box
import GuardedGrammar.Text.Lines
import Mathlib.Algebra.Order.Ring.Nat
import Mathlib.Data.List.MinMax
import Mathlib.Order.Bounds.Basic

namespace GuardedGrammar

/-! ## Parts that are closed by a mark -/

section

variable {α : Type}

/-- Parts one behind the other, each with a mark behind it. -/
def closed (mark : α) (parts : List (List α)) : List α := parts.flatMap (· ++ [mark])

theorem closed_cons (mark : α) (part : List α) (parts : List (List α)) :
    closed mark (part :: parts) = part ++ mark :: closed mark parts :=
  List.append_assoc part [mark] (closed mark parts)

/-- Nothing stands behind the last mark. -/
theorem splitOnP_closed {p : α → Bool} {mark : α} (hmark : p mark = true) {parts : List (List α)}
    (h : ∀ part ∈ parts, ∀ a ∈ part, p a = false) :
    (closed mark parts).splitOnP p = parts ++ [[]] := by
  induction parts with
  | nil => exact List.splitOnP_nil
  | cons part parts ih =>
    -- the first part is cut off at its own mark, since there is none in it
    rw [closed_cons, List.splitOnP_append_cons part _ hmark,
      List.splitOnP_eq_singleton (h part List.mem_cons_self),
      ih fun other hother => h other (List.mem_cons_of_mem _ hother)]
    rfl

/-! Each part is longer by its mark, and so the last mark stands at the end. -/

theorem length_closed (mark : α) (parts : List (List α)) :
    (closed mark parts).length = (parts.map fun part => part.length + 1).sum := by
  simp [closed]

theorem getLast?_closed {mark : α} {parts : List (List α)} (h : parts ≠ []) :
    (closed mark parts).getLast? = some mark := by
  rw [closed, ← List.dropLast_concat_getLast h, List.flatMap_append, List.flatMap_singleton,
    ← List.append_assoc, List.getLast?_concat]

theorem mem_closed {mark a : α} {parts : List (List α)} :
    a ∈ closed mark parts ↔ ∃ part ∈ parts, a ∈ part ∨ a = mark := by
  simp [closed]

end

namespace Text

/-- Up to a line feed there is one line, which loses a return at its end. -/
theorem linesFrom_append_feed {part : List Char} (h : '\n' ∉ part) (line rest : List Char) :
    linesFrom line (part ++ '\n' :: rest) = dropReturn (line.reverse ++ part) :: lines rest := by
  induction part generalizing line with
  | nil =>
    rw [List.nil_append, linesFrom, if_pos rfl, List.append_nil]
    rfl
  | cons c part ih =>
    rw [List.mem_cons, not_or] at h
    rw [List.cons_append, linesFrom, if_neg (Ne.symm h.1), ih h.2, List.reverse_cons,
      List.append_assoc]
    rfl

/-- Lines that are closed by line feeds are the lines of the text, if no return stands at the end of
one. -/
theorem lines_closed {parts : List (List Char)} (hfeed : ∀ part ∈ parts, '\n' ∉ part)
    (hreturn : ∀ part ∈ parts, part.getLast? ≠ some '\r') : lines (closed '\n' parts) = parts := by
  induction parts with
  | nil => rfl
  | cons part parts ih =>
    have hkept : dropReturn part = part := if_neg (hreturn part List.mem_cons_self)
    rw [closed_cons, lines, linesFrom_append_feed (hfeed part List.mem_cons_self), List.reverse_nil,
      List.nil_append, hkept, ih (fun other hother => hfeed other (List.mem_cons_of_mem _ hother))
        fun other hother => hreturn other (List.mem_cons_of_mem _ hother)]

end Text

namespace Box

/-! ## What there is to see -/

/-- The greatest width to which a text can be filled up with blanks. -/
def widthLimit : Nat := 65535

/-- A cell that fits into a drawing: it stands on one line, and no column becomes too wide by it. -/
def IsCell (cell : String) : Prop := '\n' ∉ cell.toList ∧ cell.length ≤ widthLimit

/-- There are as many columns as the longest row has cells, and each is as wide as its longest cell. -/
structure AreWidths (rows : List (List String)) (ws : List Nat) : Prop where
  columns : ∀ column : Nat, column < ws.length ↔ ∃ row ∈ rows, column < row.length
  widest : ∀ column w : Nat, ws[column]? = some w →
    IsGreatest {n | ∃ row ∈ rows, ∃ cell : String, row[column]? = some cell ∧ cell.length = n} w

/-- The pieces of a line between the places where the border has its corners. -/
def cut (edge text : List Char) : List (List Char) :=
  ((edge.zip text).splitOnP fun place => place.1 == '+').map (·.map Prod.snd)

/-- The cells of a row with blanks in front of them, one for each column; where the row is too short,
the cells are empty. -/
def padded (ws : List Nat) (row : List String) : List (List Char) :=
  ws.mapIdx fun column w => (row[column]?.getD "").toList.leftpad w ' '

/-- A line shows a row: below the corners of the border it has bars, and between them the cells. -/
structure ShowsRow (ws : List Nat) (edge : List Char) (row : List String) (text : List Char) :
    Prop where
  bars : ∀ place ∈ edge.zip text, place.1 = '+' → place.2 = '|'
  cells : cut edge text = [] :: (padded ws row ++ [[]])

/-- Lines of one length, of which every second shows a row; the others are the border, which has dashes
between its corners. -/
structure IsDrawing (rows : List (List String)) (ws : List Nat) (edge : List Char)
    (texts : List (List Char)) : Prop where
  count : texts.length = 2 * rows.length + 1
  straight : ∀ text ∈ texts, text.length = 1 + (ws.map (· + 1)).sum
  corners : edge.splitOn '+' = [] :: (ws.map (List.replicate · '-') ++ [[]])
  edges : ∀ i, i ≤ rows.length → texts[2 * i]? = some edge
  rows : ∀ i row, rows[i]? = some row →
    ∃ text, texts[2 * i + 1]? = some text ∧ ShowsRow ws edge row text

/-! ## Widths

A column is as wide as the widest of its cells, and rows that are too short are filled up with empty
ones. So nothing that is drawn is cut off. -/

theorem le_foldr_max {l : List Nat} {n : Nat} (h : n ∈ l) : n ≤ l.foldr max 0 :=
  List.le_max_of_le h le_rfl

/-- What is less than the maximum is less than a member. -/
theorem lt_foldr_max_iff (l : List Nat) (n : Nat) : n < l.foldr max 0 ↔ ∃ m ∈ l, n < m := by
  constructor
  · intro h
    by_contra hnone
    have hle : l.foldr max 0 ≤ n :=
      List.max_le_of_forall_le l n fun m hm => Nat.le_of_not_lt fun hlt => hnone ⟨m, hm, hlt⟩
    omega
  · rintro ⟨m, hm, hlt⟩
    exact Nat.lt_of_lt_of_le hlt (le_foldr_max hm)

/-- The maximum is a member, unless there is none. -/
theorem foldr_max_mem {l : List Nat} (h : l ≠ []) : l.foldr max 0 ∈ l :=
  List.maximum_mem (List.foldr_max_of_ne_nil h).symm

theorem length_cellAt_le {rows : List (List String)} {row : List String} (h : row ∈ rows)
    (column : Nat) : (cellAt row column).length ≤ width rows column :=
  le_foldr_max (List.mem_map_of_mem h)

/-- The longest cell is that of a row which reaches that far: if no cell has a character, any row that
has the column will do. -/
theorem isGreatest_width {rows : List (List String)} {column : Nat}
    (h : ∃ row ∈ rows, column < row.length) :
    IsGreatest {n | ∃ row ∈ rows, ∃ cell : String, row[column]? = some cell ∧ cell.length = n}
      (width rows column) := by
  have hcell {row : List String} {cell : String} (hget : row[column]? = some cell) :
      cellAt row column = cell := by
    rw [cellAt, hget, Option.getD_some]
  constructor
  · obtain ⟨row, hrow, hlt⟩ := h
    have hne : rows.map (fun row => (cellAt row column).length) ≠ [] :=
      List.ne_nil_of_mem (List.mem_map_of_mem hrow)
    obtain ⟨longest, hlongest, hlength⟩ := List.mem_map.1 (foldr_max_mem hne)
    change _ = width rows column at hlength
    -- the longest cell is there, or the row does not reach that far and all cells are empty
    cases hget : longest[column]? with
    | some cell => exact ⟨longest, hlongest, cell, hget, hcell hget ▸ hlength⟩
    | none =>
      have hzero : width rows column = 0 := by
        rw [← hlength, cellAt, hget]
        rfl
      have hle := length_cellAt_le hrow column
      rw [hcell (List.getElem?_eq_getElem hlt)] at hle
      exact ⟨row, hrow, row[column], List.getElem?_eq_getElem hlt, by omega⟩
  · rintro n ⟨row, hrow, cell, hget, rfl⟩
    rw [← hcell hget]
    exact length_cellAt_le hrow column

/-- Each column has its width, and there are no others. -/
theorem getElem?_widths (rows : List (List String)) (column : Nat) :
    (widths rows)[column]? = if column < columnCount rows then some (width rows column) else none := by
  rw [widths, List.getElem?_map]
  split
  · next h => rw [List.getElem?_range h, Option.map_some]
  · next h => rw [List.getElem?_eq_none (by rwa [List.length_range, ← Nat.not_lt]), Option.map_none]

/-- The widths that are computed are those of the columns. -/
theorem areWidths_widths (rows : List (List String)) : AreWidths rows (widths rows) := by
  have hcolumns : ∀ column, column < columnCount rows ↔ ∃ row ∈ rows, column < row.length := by
    intro column
    simp [columnCount, lt_foldr_max_iff]
  constructor
  · intro column
    rw [widths, List.length_map, List.length_range]
    exact hcolumns column
  · intro column w hw
    rw [getElem?_widths, Option.ite_none_right_eq_some, Option.some.injEq] at hw
    obtain ⟨hlt, rfl⟩ := hw
    exact isGreatest_width ((hcolumns column).1 hlt)

/-- The widths of rows are determined: their number by the longest row, and each by the longest
cell. -/
theorem AreWidths.unique {rows : List (List String)} {ws ws' : List Nat} (h : AreWidths rows ws)
    (h' : AreWidths rows ws') : ws = ws' := by
  have hlength : ws.length = ws'.length := by
    have hiff (column : Nat) : column < ws.length ↔ column < ws'.length :=
      (h.columns column).trans (h'.columns column).symm
    have hle := hiff ws.length
    have hge := hiff ws'.length
    omega
  refine List.ext_getElem hlength fun column hlt hlt' => ?_
  have hwidest := h.widest column _ (List.getElem?_eq_getElem hlt)
  exact hwidest.unique (h'.widest column _ (List.getElem?_eq_getElem hlt'))

/-! ## Borders and rows

Borders and rows have as many columns as the table, each of them as wide as its column, and so all
are equally long. -/

/-- A border is made of dashes, closed by corners. -/
theorem toList_border (widths : List Nat) :
    (border widths).toList = closed '+' ([] :: widths.map (List.replicate · '-')) := by
  simp [border, fill, closed, String.toList_join, List.flatMap_map]

/-- Between corners there are only dashes. -/
theorem eq_dash_of_mem {widths : List Nat} {part : List Char} {c : Char}
    (hpart : part ∈ [] :: widths.map (List.replicate · '-')) (hc : c ∈ part) : c = '-' := by
  rcases List.mem_cons.1 hpart with rfl | hpart
  · exact absurd hc List.not_mem_nil
  · obtain ⟨w, -, rfl⟩ := List.mem_map.1 hpart
    exact List.eq_of_mem_replicate hc

/-- A line is made of cells that are filled up, closed by bars. -/
theorem toList_line (widths : List Nat) (row : List String) :
    (line widths row).toList = closed '|' ([] :: padded widths row) := by
  simp [line, padLeft, fill, closed, padded, cellAt, String.toList_join, List.flatMap_map,
    List.mapIdx_eq_zipIdx_map, List.leftpad, String.length_toList]

/-- The cells of a row fill their columns. -/
theorem map_length_padded {rows : List (List String)} {row : List String} (h : row ∈ rows) :
    (padded (widths rows) row).map List.length = widths rows := by
  refine List.ext_getElem? fun column => ?_
  rw [padded, List.getElem?_map, List.getElem?_mapIdx, Option.map_map, getElem?_widths]
  split
  · rw [Option.map_some, Function.comp_apply, List.length_leftpad, String.length_toList]
    exact congrArg some (Nat.max_eq_left (length_cellAt_le h column))
  · rfl

/-- A border and a line are made of pairs of parts that are closed together. -/
theorem zip_closed (parts : List (List Char)) :
    (closed '+' (parts.map fun part => List.replicate part.length '-')).zip (closed '|' parts) =
      closed ('+', '|') (parts.map fun part => (List.replicate part.length '-').zip part) := by
  induction parts with
  | nil => rfl
  | cons part parts ih =>
    have hlength : (List.replicate part.length '-').length = part.length := List.length_replicate
    rw [List.map_cons, List.map_cons, closed_cons, closed_cons, closed_cons,
      List.zip_append hlength, List.zip_cons_cons, ih]

/-- There are no corners between the dashes of a border. -/
theorem ne_corner_of_mem {part : List Char} {place : Char × Char}
    (h : place ∈ (List.replicate part.length '-').zip part) : place.1 ≠ '+' := by
  obtain ⟨above, below⟩ := place
  have hdash : above = '-' := List.eq_of_mem_replicate (List.of_mem_zip h).1
  show above ≠ '+'
  rw [hdash]
  decide

/-- To cut a line below the corners gives back the parts that it has been made of. -/
theorem cut_closed (parts : List (List Char)) :
    cut (closed '+' (parts.map fun part => List.replicate part.length '-')) (closed '|' parts) =
      parts ++ [[]] := by
  have hplain : ∀ part ∈ parts.map fun part => (List.replicate part.length '-').zip part,
      ∀ place ∈ part, (place.1 == '+') = false := by
    intro zipped hzipped place hplace
    obtain ⟨part, -, rfl⟩ := List.mem_map.1 hzipped
    exact beq_false_of_ne (ne_corner_of_mem hplace)
  -- what is cut are pairs, of which the lower ones are the line
  have hback : (parts.map fun part => (List.replicate part.length '-').zip part).map
      (·.map Prod.snd) = parts := by
    rw [List.map_map]
    refine List.map_id'' (fun part => ?_) parts
    exact List.map_snd_zip (Nat.le_of_eq List.length_replicate.symm)
  rw [cut, zip_closed, splitOnP_closed rfl hplain, List.map_append, hback]
  rfl

/-- The dashes of a border are as many as the characters of the cells below. -/
theorem map_replicate_length {widths : List Nat} {cells : List (List Char)}
    (h : cells.map List.length = widths) :
    ([] :: cells).map (fun part => List.replicate part.length '-') =
      [] :: widths.map (List.replicate · '-') := by
  rw [← h, List.map_map]
  rfl

/-- The line of a row shows the row, since its cells end where the border has corners. -/
theorem showsRow_line {rows : List (List String)} {row : List String} (h : row ∈ rows) :
    ShowsRow (widths rows) (border (widths rows)).toList row (line (widths rows) row).toList := by
  rw [toList_border, toList_line, ← map_replicate_length (map_length_padded h)]
  -- corners and bars are at the same places, and the cells are between them
  constructor
  · intro place hplace hcorner
    rw [zip_closed] at hplace
    obtain ⟨zipped, hzipped, hplace | rfl⟩ := mem_closed.1 hplace
    · obtain ⟨part, -, rfl⟩ := List.mem_map.1 hzipped
      exact absurd hcorner (ne_corner_of_mem hplace)
    · rfl
  · exact cut_closed _

/-- A border has a corner in front, and each column with a corner behind it. -/
theorem length_toList_border (widths : List Nat) :
    (border widths).toList.length = 1 + (widths.map (· + 1)).sum := by
  rw [toList_border, length_closed, List.map_cons, List.sum_cons, List.map_map]
  simp [Function.comp_def]

/-- A line is as long as the border. -/
theorem length_toList_line {rows : List (List String)} {row : List String} (h : row ∈ rows) :
    (line (widths rows) row).toList.length = 1 + ((widths rows).map (· + 1)).sum := by
  rw [toList_line, length_closed, List.map_cons, List.sum_cons]
  conv_rhs => rw [← map_length_padded h, List.map_map]
  rfl

/-! ## Lines -/

section

variable {α β : Type} (b : β) (f : α → β)

/-- Each member gives two entries, and one more stands at the end. -/
theorem length_between (xs : List α) :
    (xs.flatMap (fun x => [b, f x]) ++ [b]).length = 2 * xs.length + 1 := by
  induction xs with
  | nil => rfl
  | cons x xs ih =>
    rw [List.flatMap_cons, List.append_assoc, List.length_append, ih, List.length_cons]
    simp only [List.length_cons, List.length_nil]
    omega

/-- At even places, there is always the same. -/
theorem getElem?_between_even {xs : List α} {i : Nat} (h : i ≤ xs.length) :
    (xs.flatMap (fun x => [b, f x]) ++ [b])[2 * i]? = some b := by
  induction xs generalizing i with
  | nil =>
    obtain rfl : i = 0 := Nat.le_zero.1 h
    rfl
  | cons x xs ih =>
    cases i with
    | zero => rfl
    | succ i => exact ih (Nat.le_of_succ_le_succ h)

/-- At odd places, there are the members in order. -/
theorem getElem?_between_odd (xs : List α) (i : Nat) :
    (xs.flatMap (fun x => [b, f x]) ++ [b])[2 * i + 1]? = xs[i]?.map f := by
  induction xs generalizing i with
  | nil => exact List.getElem?_eq_none (by simp)
  | cons x xs ih =>
    cases i with
    | zero => rfl
    | succ i => exact ih i

end

/-- What is so of the border and of the line of each row is so of all lines. -/
theorem forall_mem_lines {rows : List (List String)} {p : List Char → Prop}
    (hborder : p (border (widths rows)).toList)
    (hline : ∀ row ∈ rows, p (line (widths rows) row).toList) :
    ∀ text ∈ (lines rows).map String.toList, p text := by
  intro text htext
  obtain ⟨l, hl, rfl⟩ := List.mem_map.1 htext
  rcases List.mem_append.1 hl with hl | hl
  · obtain ⟨row, hrow, hl⟩ := List.mem_flatMap.1 hl
    rcases List.mem_pair.1 hl with rfl | rfl
    · exact hborder
    · exact hline row hrow
  · exact List.mem_singleton.1 hl ▸ hborder

/-- The lines of a drawing are a border and a row in turn, and a border at the end. -/
theorem isDrawing_lines (rows : List (List String)) :
    IsDrawing rows (widths rows) (border (widths rows)).toList ((lines rows).map String.toList) where
  count := by
    rw [List.length_map]
    exact length_between _ _ rows
  straight := forall_mem_lines (length_toList_border _) fun _ hrow => length_toList_line hrow
  corners := by
    rw [toList_border, List.splitOn_eq_splitOnP]
    refine splitOnP_closed rfl fun part hpart c hc => ?_
    rw [eq_dash_of_mem hpart hc]
    decide
  edges i hi := by
    rw [List.getElem?_map, lines, getElem?_between_even _ _ hi, Option.map_some]
  rows i row hrow := by
    refine ⟨(line (widths rows) row).toList, ?_, showsRow_line (List.mem_of_getElem? hrow)⟩
    rw [List.getElem?_map, lines, getElem?_between_odd, hrow, Option.map_some, Option.map_some]

/-! ## The text

Lines end with a line feed, of which there is none inside a line, so the text falls into the lines
again. -/

/-- The text of a drawing is made of its lines, closed by line feeds. -/
theorem toList_draw (rows : List (List String)) :
    (draw rows).toList = closed '\n' ((lines rows).map String.toList) := by
  simp [draw, closed, String.toList_join, List.flatMap_map]

/-- There is no line feed in a border. -/
theorem feed_notMem_border (widths : List Nat) : '\n' ∉ (border widths).toList := by
  rw [toList_border, mem_closed]
  rintro ⟨part, hpart, hfeed | hfeed⟩
  · exact absurd (eq_dash_of_mem hpart hfeed) (by decide)
  · exact absurd hfeed (by decide)

/-- Nor in the line of a row whose cells stand on one line. -/
theorem feed_notMem_line (widths : List Nat) {row : List String}
    (h : ∀ cell ∈ row, '\n' ∉ cell.toList) : '\n' ∉ (line widths row).toList := by
  rw [toList_line, mem_closed]
  rintro ⟨part, hpart, hfeed | hfeed⟩
  · rcases List.mem_cons.1 hpart with rfl | hpart
    · exact List.not_mem_nil hfeed
    · obtain ⟨column, hlt, rfl⟩ := List.mem_mapIdx.1 hpart
      rcases List.mem_append.1 hfeed with hblank | hcell
      · exact absurd (List.eq_of_mem_replicate hblank) (by decide)
      · cases hget : row[column]? with
        | none =>
          rw [hget] at hcell
          exact List.not_mem_nil hcell
        | some cell =>
          rw [hget] at hcell
          exact h cell (List.mem_of_getElem? hget) hcell
  · exact absurd hfeed (by decide)

theorem lines_draw {rows : List (List String)} (h : ∀ row ∈ rows, ∀ cell ∈ row, '\n' ∉ cell.toList) :
    Text.lines (draw rows).toList = (lines rows).map String.toList := by
  rw [toList_draw]
  refine Text.lines_closed ?_ ?_
  · exact forall_mem_lines (feed_notMem_border _) fun row hrow => feed_notMem_line _ (h row hrow)
  -- a line ends with a corner or with a bar
  · refine forall_mem_lines ?_ fun row _ => ?_
    · rw [toList_border, getLast?_closed (List.cons_ne_nil _ _)]
      decide
    · rw [toList_line, getLast?_closed (List.cons_ne_nil _ _)]
      decide

/-- No column is wider than its cells may be long. -/
theorem AreWidths.le_of_forall {rows : List (List String)} {ws : List Nat} (h : AreWidths rows ws)
    {n : Nat} (hcells : ∀ row ∈ rows, ∀ cell ∈ row, cell.length ≤ n) : ∀ w ∈ ws, w ≤ n := by
  intro w hw
  obtain ⟨column, hcolumn⟩ := List.mem_iff_getElem?.1 hw
  obtain ⟨row, hrow, cell, hcell, rfl⟩ := (h.widest column w hcolumn).1
  exact hcells row hrow cell (List.mem_of_getElem? hcell)

/-- A table of cells that stand on one line and are not too long is drawn in lines of one length: one for
each row, and around them the border, which is the same everywhere.  Where the border has its corners,
the line of a row falls into the cells of the row, each at the right of its column, and all columns are
narrow enough to be filled up with blanks. -/
theorem draw_shows_rows (rows : List (List String)) (h : ∀ row ∈ rows, ∀ cell ∈ row, IsCell cell) :
    ∃ ws edge, AreWidths rows ws ∧ (∀ w ∈ ws, w ≤ widthLimit) ∧
      IsDrawing rows ws edge (Text.lines (draw rows).toList) ∧
      (draw rows).toList = closed '\n' (Text.lines (draw rows).toList) := by
  rw [lines_draw fun row hrow cell hcell => (h row hrow cell hcell).1]
  have hwidths := areWidths_widths rows
  exact ⟨widths rows, _, hwidths,
    hwidths.le_of_forall fun row hrow cell hcell => (h row hrow cell hcell).2, isDrawing_lines rows,
    toList_draw rows⟩

/-- Rows of three cells, of one, of none and of four; the cells have bars, blanks and letters of two
bytes in them, and the last column has no cell with a character. -/
def ragged : List (List String) := [["", "état", "a|b "], ["ß"], [], ["", "|", "", ""]]

theorem draw_shows_rows_ragged : (∀ row ∈ ragged, ∀ cell ∈ row, IsCell cell) ∧
    ∃ edge, IsDrawing ragged [1, 4, 4, 0] edge (Text.lines (draw ragged).toList) := by
  have hcells : ∀ row ∈ ragged, ∀ cell ∈ row, IsCell cell := by
    unfold IsCell
    decide
  obtain ⟨ws, edge, hws, -, hdrawing, -⟩ := draw_shows_rows ragged hcells
  have hwidths : widths ragged = [1, 4, 4, 0] := by decide
  rw [hws.unique (areWidths_widths ragged), hwidths] at hdrawing
  exact ⟨hcells, edge, hdrawing⟩

example : draw ragged =
    "+-+----+----++\n| |état|a|b ||\n+-+----+----++\n|ß|    |    ||\n" ++
    "+-+----+----++\n| |    |    ||\n+-+----+----++\n| |   ||    ||\n+-+----+----++\n" := by
  decide +kernel

end Box

end GuardedGrammar
