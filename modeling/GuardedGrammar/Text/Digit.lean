/-
  Decimal digits, as Unicode's general category Nd has them, and the reading of numbers.

  Digits come in runs of ten with consecutive code points, so the class is given by the zeros of its
  runs.  A number, on the other hand, is written with the ten ASCII digits alone: a run of digits of
  another script is a word of digits that denotes no number.

  Main statement: `isDigit_of_isDigit`, the ten ASCII digits are digits.
-/

namespace GuardedGrammar.Text

/-! ## The class -/

/-- The zeros of the runs of ten decimal digits, in ascending order. -/
def digitZeros : List Nat :=
  [
    0x30, 0x660, 0x6F0, 0x7C0, 0x966, 0x9E6, 0xA66, 0xAE6, 0xB66, 0xBE6, 0xC66, 0xCE6,
    0xD66, 0xDE6, 0xE50, 0xED0, 0xF20, 0x1040, 0x1090, 0x17E0, 0x1810, 0x1946, 0x19D0, 0x1A80,
    0x1A90, 0x1B50, 0x1BB0, 0x1C40, 0x1C50, 0xA620, 0xA8D0, 0xA900, 0xA9D0, 0xA9F0, 0xAA50, 0xABF0,
    0xFF10, 0x104A0, 0x10D30, 0x10D40, 0x11066, 0x110F0, 0x11136, 0x111D0, 0x112F0, 0x11450, 0x114D0, 0x11650,
    0x116C0, 0x116D0, 0x116DA, 0x11730, 0x118E0, 0x11950, 0x11BF0, 0x11C50, 0x11D50, 0x11DA0, 0x11F50, 0x16130,
    0x16A60, 0x16AC0, 0x16B50, 0x16D70, 0x1CCF0, 0x1D7CE, 0x1D7D8, 0x1D7E2, 0x1D7EC, 0x1D7F6, 0x1E140, 0x1E2F0,
    0x1E4F0, 0x1E5F1, 0x1E950, 0x1FBF0
  ]

/-- A decimal digit of any script. -/
def isDigit (c : Char) : Bool :=
  digitZeros.any fun first => first ≤ c.toNat && c.toNat < first + 10

/-- ASCII digits are digits. -/
theorem isDigit_of_isDigit (c : Char) (h : c.isDigit = true) : isDigit c = true := by
  simp only [isDigit, List.any_eq_true]
  refine ⟨0x30, by decide, ?_⟩
  simp only [Char.isDigit, Bool.and_eq_true, decide_eq_true_eq, ge_iff_le, UInt32.le_iff_toNat_le]
    at h
  have h₁ : (0x30 : Nat) ≤ c.toNat := h.1
  have h₂ : c.toNat ≤ 0x39 := h.2
  simp only [Bool.and_eq_true, decide_eq_true_eq]
  omega

/-! ## Numbers -/

/-- The value of a run of ASCII digits. -/
def valueOf (digits : List Char) : Nat :=
  digits.foldl (fun value c => 10 * value + (c.toNat - 0x30)) 0

/-- One more than the greatest number that can be read: numbers fit into 32 bits. -/
def numberBound : Nat := 4294967296

/-- Reads a non-empty run of ASCII digits as a number below the bound. -/
def readDigits? (digits : List Char) : Option Nat :=
  if digits.isEmpty || !digits.all Char.isDigit || numberBound ≤ valueOf digits then none
  else some (valueOf digits)

/-- Reads a number, which may have a plus sign in front. -/
def readNumber? : List Char → Option Nat
  | '+' :: digits => readDigits? digits
  | digits => readDigits? digits

end GuardedGrammar.Text
