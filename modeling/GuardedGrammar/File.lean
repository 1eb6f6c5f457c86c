/-
  The text of a file.

  A file is there or not, and its bytes are the UTF-8 encoding of a text or not.
-/

namespace GuardedGrammar

/-- Why the text of a file cannot be had. -/
inductive FileProblem where
  /-- There is no such file. -/
  | missing
  /-- What should be a folder, for a name inside it, is a file. -/
  | notFolder
  /-- What should be a file is a folder. -/
  | isFolder
  /-- A name on the way is too long for a folder, or the whole path is too long. -/
  | nameTooLong
  /-- The bytes are not the encoding of a text. -/
  | notText
  /-- Anything else that the system reports. -/
  | refused (reason : String)
deriving DecidableEq, Repr

/-- What the system says of a problem. -/
def FileProblem.describe : FileProblem → String
  | missing => "No such file or directory (os error 2)"
  | notFolder => "Not a directory (os error 20)"
  | isFolder => "Is a directory (os error 21)"
  | nameTooLong => "File name too long (os error 36)"
  | notText => "stream did not contain valid UTF-8"
  | refused reason => reason

/-- What is known of a file: its bytes, or why they could not be read. -/
abbrev FileContent := Except FileProblem ByteArray

/-- The text of a file. -/
def FileContent.text (content : FileContent) : Except FileProblem (List Char) :=
  match content with
  | .error p => .error p
  | .ok bytes =>
    match String.fromUTF8? bytes with
    | some s => .ok s.toList
    | none => .error .notText

/-- The text of a file that holds the encoding of a text. -/
theorem FileContent.text_toUTF8 (s : String) : FileContent.text (.ok s.toUTF8) = .ok s.toList := by
  simp [text, String.fromUTF8?, String.fromUTF8, s.isValidUTF8]

end GuardedGrammar
