/-
  White space, as Unicode's property White_Space has it.

  These are the characters that a text is trimmed of and that separate words.  The information
  separators U+001C to U+001F, the zero width space and the byte order mark are not among them.
  Main statement: `isBlank_of_isWhitespace`, every character that core calls white space is blank.
-/

namespace GuardedGrammar.Text

/-- The code points with the property White_Space. -/
def isBlank (c : Char) : Bool :=
  let n := c.toNat
  (0x9 ≤ n && n ≤ 0xD) || n == 0x20 || n == 0x85 || n == 0xA0 || n == 0x1680
    || (0x2000 ≤ n && n ≤ 0x200A) || n == 0x2028 || n == 0x2029 || n == 0x202F || n == 0x205F
    || n == 0x3000

/-- Whitespace is blank. -/
theorem isBlank_of_isWhitespace (c : Char) (h : c.isWhitespace = true) : isBlank c = true := by
  simp only [Char.isWhitespace, Bool.or_eq_true, decide_eq_true_eq] at h
  rcases h with ((h | h) | h) | h <;> subst h <;> decide

/-- The text without the blanks it begins with. -/
def trimStart (text : List Char) : List Char :=
  text.dropWhile isBlank

/-- Whether nothing is left of a text once its blanks are gone. -/
def isBlankText (text : List Char) : Bool :=
  text.all isBlank

/-- Nothing is left behind the blanks of a text that has only blanks. -/
theorem trimStart_eq_nil_iff (text : List Char) : trimStart text = [] ↔ isBlankText text = true := by
  induction text with
  | nil => simp [trimStart, isBlankText]
  | cons c r ih =>
    cases h : isBlank c <;> simp_all [trimStart, isBlankText]

end GuardedGrammar.Text
