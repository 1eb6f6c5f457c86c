/-
  Cutting a text into lines.

  A line ends at a line feed, and a carriage return that stands right before the line feed belongs
  to the ending.  A line feed at the very end starts no further line, so an empty text has no lines
  at all, and a carriage return at the very end is part of the last line.
-/

namespace GuardedGrammar.Text

/-- A line without the carriage return that its line feed may follow. -/
def dropReturn (line : List Char) : List Char :=
  if line.getLast? = some '\r' then line.dropLast else line

/-- Collects the lines of a text; `line` is what has been read of the current one, last first. -/
def linesFrom : List Char → List Char → List (List Char)
  | line, [] => if line.isEmpty then [] else [line.reverse]
  | line, c :: rest =>
    if c = '\n' then dropReturn line.reverse :: linesFrom [] rest else linesFrom (c :: line) rest

/-- The lines of a text, in order and without their endings. -/
def lines (text : List Char) : List (List Char) :=
  linesFrom [] text

/-- Lines written one below the other, with no line feed after the last. -/
def joinLines (parts : List (List Char)) : List Char :=
  ['\n'].intercalate parts

/-- A text without line feeds is a single line. -/
theorem linesFrom_of_forall_ne (line text : List Char) (h : ∀ c ∈ text, c ≠ '\n') :
    linesFrom line text = if line.isEmpty && text.isEmpty then [] else [line.reverse ++ text] := by
  induction text generalizing line with
  | nil => cases line <;> simp [linesFrom]
  | cons c rest ih =>
    have hc : c ≠ '\n' := h c (by simp)
    rw [linesFrom, if_neg hc, ih (c :: line) (fun d hd => h d (by simp [hd]))]
    simp

/-- A line that loses its return is the beginning of what it was. -/
theorem dropReturn_isPrefix (line : List Char) : dropReturn line <+: line := by
  unfold dropReturn
  split
  · exact List.dropLast_prefix line
  · exact List.prefix_refl line

/-- The lines are parts of the text. -/
theorem isInfix_of_mem_linesFrom {line text l : List Char} (h : l ∈ linesFrom line text) :
    l <:+: line.reverse ++ text := by
  induction text generalizing line with
  | nil =>
    unfold linesFrom at h
    split at h
    · exact nomatch h
    · obtain rfl := List.mem_singleton.1 h
      exact (List.prefix_append _ _).isInfix
  | cons c rest ih =>
    unfold linesFrom at h
    split at h
    · rcases List.mem_cons.1 h with rfl | h
      · exact (dropReturn_isPrefix _).isInfix.trans (List.prefix_append _ _).isInfix
      · exact (ih h).trans ⟨line.reverse ++ [c], [], by simp⟩
    · simpa using ih h

/-- A line stands in the text. -/
theorem isInfix_of_mem_lines {text l : List Char} (h : l ∈ lines text) : l <:+: text :=
  isInfix_of_mem_linesFrom h

end GuardedGrammar.Text
