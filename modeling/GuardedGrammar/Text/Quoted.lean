/-
  Quoted texts.

  A text is quoted by putting it between double quotes, with a backslash before each double quote
  and backslash of its own.  The null character, the tab, the carriage return and the line feed have
  a letter; any other hidden character is written by its number in lower-case hexadecimal, between
  braces.  The apostrophe is written as itself.

  Main statement: `quote_of_forall_plain`, a text of plain characters stands between its quotes
  unchanged.
-/
import GuardedGrammar.Text.Hidden

namespace GuardedGrammar.Text

/-- A character by its number. -/
def numbered (c : Char) : List Char :=
  ['\\', 'u', '\x7b'] ++ Nat.toDigits 16 c.toNat ++ ['\x7d']

/-- How a character is written inside quotes. -/
def escape (c : Char) : List Char :=
  match c with
  | '\x00' => ['\\', '0']
  | '\t' => ['\\', 't']
  | '\r' => ['\\', 'r']
  | '\n' => ['\\', 'n']
  | '"' => ['\\', '"']
  | '\\' => ['\\', '\\']
  | c => if isHidden c then numbered c else [c]

/-- A text between double quotes. -/
def quote (text : List Char) : List Char :=
  '"' :: (text.flatMap escape ++ ['"'])

/-- A string between double quotes. -/
def quoted (s : String) : String :=
  String.ofList (quote s.toList)

/-- A character that is written as itself inside quotes. -/
def IsPlain (c : Char) : Prop :=
  escape c = [c]

/-- A text without special characters is put between quotes as it is. -/
theorem quote_of_forall_plain (text : List Char) (h : ∀ c ∈ text, IsPlain c) :
    quote text = '"' :: (text ++ ['"']) := by
  have : text.flatMap escape = text := by
    induction text with
    | nil => rfl
    | cons c rest ih =>
      have hc : escape c = [c] := h c (by simp)
      simp [hc, ih (fun d hd => h d (by simp [hd]))]
  rw [quote, this]

end GuardedGrammar.Text
