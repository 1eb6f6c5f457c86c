/-
  Ranges of characters as blocks of bytes.

  A block is a list of byte ranges.  It stands for the sequences that take, at each place, a byte of
  the range at that place.  The bytes of the characters of a range make up a few blocks: a character
  is written with digits to the base of 64, the leading one in a byte that also tells how many there
  are, and the characters between two others are those that share a leading digit with one of them
  and those whose leading digit stands in between.

  Main statement: `length_of_mem_blocks`, a block has a range for each digit.
-/

namespace GuardedGrammar.Text

/-- The bytes from the first to the last, both included. -/
structure ByteRange where
  first : Nat
  last : Nat
deriving DecidableEq, Repr

/-- Sequences of bytes, given place by place. -/
abbrev ByteBlock := List ByteRange

/-- What the byte of a digit is made of that is not the leading one. -/
def continuation : Nat := 0x80

/-- The bytes of all digits that are not the leading one. -/
def anyContinuation : ByteRange := ⟨continuation, continuation + 63⟩

/-- How many numbers can be written with so many digits. -/
def weight : (digits : Nat) → Nat
  | 0 => 1
  | digits + 1 => 64 * weight digits

/-- The blocks of the numbers from `first` to `last`, which have a leading digit and the given number
of further digits; the byte of the leading one is counted from `lead`. -/
def blocks : (digits lead first last : Nat) → List ByteBlock
  | 0, lead, first, last => [[⟨lead + first, lead + last⟩]]
  | digits + 1, lead, first, last =>
    let unit := weight (digits + 1)
    let sharing (digit first last : Nat) :=
      (blocks digits continuation first last).map (⟨lead + digit, lead + digit⟩ :: ·)
    let a := first / unit
    let b := last / unit
    if a = b then sharing a (first % unit) (last % unit)
    else
      let lowest := if first % unit = 0 then a else a + 1
      let highest := if last % unit = unit - 1 then b + 1 else b
      (if lowest = a then [] else sharing a (first % unit) (unit - 1)) ++
        (if lowest < highest then
          [⟨lead + lowest, lead + highest - 1⟩ :: List.replicate (digits + 1) anyContinuation]
        else []) ++
        (if highest = b then sharing b 0 (last % unit) else [])

/-- A block has a range for each digit. -/
theorem length_of_mem_blocks {digits lead first last : Nat} {block : ByteBlock}
    (h : block ∈ blocks digits lead first last) : block.length = digits + 1 := by
  induction digits generalizing lead first last block with
  | zero =>
    cases List.mem_singleton.1 h
    rfl
  | succ digits ih =>
    have hsharing {lead digit first last : Nat} (h : block ∈
        (blocks digits continuation first last).map (⟨lead + digit, lead + digit⟩ :: ·)) :
        block.length = digits + 1 + 1 := by
      obtain ⟨rest, hrest, rfl⟩ := List.mem_map.1 h
      rw [List.length_cons, ih hrest]
    by_cases hshared : first / weight (digits + 1) = last / weight (digits + 1)
    · simp only [blocks, hshared, if_true] at h
      exact hsharing h
    · simp only [blocks, hshared, if_false, List.mem_append, List.mem_ite_nil_left,
        List.mem_ite_nil_right, List.mem_singleton] at h
      rcases h with (⟨_, h⟩ | ⟨_, rfl⟩) | ⟨_, h⟩
      · exact hsharing h
      · simp
      · exact hsharing h

/-- The code points whose characters take the same number of bytes: the first and the last of them,
how many digits follow the leading one, and from where the byte of that one is counted.  Between the
third and the fourth are the code points that no character has. -/
def widths : List (Nat × Nat × Nat × Nat) :=
  [(0, 0x7F, 0, 0), (0x80, 0x7FF, 1, 0xC0), (0x800, 0xD7FF, 2, 0xE0), (0xE000, 0xFFFF, 2, 0xE0),
    (0x10000, 0x10FFFF, 3, 0xF0)]

/-- The blocks of the characters in a range of code points, in ascending order. -/
def byteBlocks (first last : Nat) : List ByteBlock :=
  widths.flatMap fun (least, greatest, digits, lead) =>
    let first := max first least
    let last := min last greatest
    if first ≤ last then blocks digits lead first last else []

end GuardedGrammar.Text
