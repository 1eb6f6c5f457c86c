/-
  Classes of characters.

  A class is given by its TURNS, the code points at which it changes between having characters and
  having none: a character is in the class if there is an odd number of turns up to it.  The letters
  from `a` to `c` turn at `a` and at `d`, and all characters but these turn at zero as well.  Turns
  are kept in ascending order and without repetition, so classes of the same characters are the same
  class, however they are written.

  A set operation looks at the turns of both classes only, since nothing changes in between
  (`holds_combine`).

  Main statements: `contains_union`, `contains_unions`, `contains_inter`, `contains_diff`,
  `contains_symmDiff` and `contains_complement`, what the operations do to the characters;
  `contains_only`, `contains_blank` and `contains_nameChar` say what the classes contain that names
  and punctuation are made of.
-/
import GuardedGrammar.Text.Blank
import GuardedGrammar.Text.Digit
import GuardedGrammar.SortedSet

namespace GuardedGrammar

/-- A set of characters, given by the code points at which it changes, in ascending order. -/
structure CharClass where
  turns : List Nat
deriving DecidableEq, Repr

namespace CharClass

/-- Whether a code point is in a class: up to it, the class turns an odd number of times. -/
def holds (k : CharClass) (n : Nat) : Bool :=
  k.turns.countP (· ≤ n) % 2 == 1

/-- Whether a character is in a class. -/
def contains (k : CharClass) (c : Char) : Bool :=
  k.holds c.toNat

/-! ## Set operations -/

/-- The class without characters. -/
def none : CharClass := ⟨[]⟩

/-- All characters. -/
def all : CharClass := ⟨[0]⟩

/-- The characters that are not in a class. -/
def complement (k : CharClass) : CharClass :=
  match k.turns with
  | 0 :: turns => ⟨turns⟩
  | turns => ⟨0 :: turns⟩

/-- The places among the given ones at which a condition on code points changes. -/
def changes (p : Nat → Bool) (places : List Nat) : List Nat :=
  places.filter fun n => p n != (n != 0 && p (n - 1))

/-- The code points for which `f` of their being in either class holds. -/
def combine (f : Bool → Bool → Bool) (k l : CharClass) : CharClass :=
  ⟨changes (fun n => f (k.holds n) (l.holds n)) (SortedSet.ofList (k.turns ++ l.turns)).toList⟩

/-- The characters of either class. -/
def union (k l : CharClass) : CharClass := combine (· || ·) k l

/-- The characters of any of the classes. -/
def unions (ks : List CharClass) : CharClass :=
  ⟨changes (fun n => ks.any (·.holds n)) (SortedSet.ofList (ks.flatMap (·.turns))).toList⟩

/-- The characters of both classes. -/
def inter (k l : CharClass) : CharClass := combine (· && ·) k l

/-- The characters of the first class that are not in the second. -/
def diff (k l : CharClass) : CharClass := combine (fun a b => a && !b) k l

/-- The characters of exactly one of the classes. -/
def symmDiff (k l : CharClass) : CharClass := combine (· != ·) k l

/-! ### Their laws -/

/-- A class that does not turn at 0 does not begin with it. -/
theorem holds_zero (k : CharClass) (h : ¬0 ∈ k.turns) : k.holds 0 = false := by
  have : k.turns.countP (· ≤ 0) = 0 := by
    rw [List.countP_eq_zero]
    intro n hn
    have : n ≠ 0 := fun e => h (e ▸ hn)
    simpa using this
  rw [holds, this]
  rfl

/-- One place further on, only the turns at that place are new. -/
theorem countP_le_succ (l : List Nat) (n : Nat) :
    l.countP (· ≤ n + 1) = l.countP (· ≤ n) + l.count (n + 1) := by
  induction l with
  | nil => rfl
  | cons a l ih =>
    simp only [List.countP_cons, List.count_cons, ih, decide_eq_true_eq, beq_iff_eq]
    split <;> split <;> split <;> omega

/-- A class is the same at a place and the next, unless it turns there. -/
theorem holds_succ (k : CharClass) (n : Nat) (h : ¬n + 1 ∈ k.turns) :
    k.holds (n + 1) = k.holds n := by
  simp only [holds, countP_le_succ, List.count_eq_zero.2 h, Nat.add_zero]

/-- A condition that changes at some of the places only is told by its changes. -/
theorem holds_changes (p : Nat → Bool) (places : List Nat) (hnodup : places.Nodup)
    (hzero : ¬0 ∈ places → p 0 = false)
    (hsucc : ∀ n, ¬n + 1 ∈ places → p (n + 1) = p n) (n : Nat) :
    holds ⟨changes p places⟩ n = p n := by
  induction n with
  | zero =>
    have hcount : (changes p places).countP (· ≤ 0) = (changes p places).count 0 := by
      rw [List.count]
      exact List.countP_congr fun a _ => by simp
    have hle := List.nodup_iff_count.1 (hnodup.filter fun n => p n != (n != 0 && p (n - 1))) 0
    have hmem : 0 ∈ changes p places ↔ p 0 = true := by
      by_cases h : 0 ∈ places
      · simp [changes, h]
      · simp [changes, h, hzero h]
    have hpos := List.count_pos_iff (a := 0) (l := changes p places)
    have hone : (changes p places).count 0 ≤ 1 := hle
    rw [holds, hcount]
    cases hp : p 0 with
    | true =>
      have := hpos.2 (hmem.2 hp)
      have : (changes p places).count 0 = 1 := by omega
      simp [this]
    | false =>
      have : (changes p places).count 0 = 0 :=
        List.count_eq_zero.2 fun h => absurd (hmem.1 h) (by simp [hp])
      simp [this]
  | succ n ih =>
    have hle := List.nodup_iff_count.1 (hnodup.filter fun n => p n != (n != 0 && p (n - 1))) (n + 1)
    have hone : (changes p places).count (n + 1) ≤ 1 := hle
    have hmem : n + 1 ∈ changes p places ↔ p (n + 1) ≠ p n := by
      by_cases h : n + 1 ∈ places
      · simp [changes, h]
      · simp [changes, h, hsucc n h]
    have hpos := List.count_pos_iff (a := n + 1) (l := changes p places)
    simp only [holds] at ih
    simp only [holds, countP_le_succ]
    by_cases hp : p (n + 1) = p n
    · have : (changes p places).count (n + 1) = 0 :=
        List.count_eq_zero.2 fun h => absurd hp (hmem.1 h)
      rw [this, hp, ← ih, Nat.add_zero]
    · have := hpos.2 (hmem.2 hp)
      have : (changes p places).count (n + 1) = 1 := by omega
      rw [this, Bool.eq_not.2 hp, ← ih]
      rcases Nat.mod_two_eq_zero_or_one ((changes p places).countP (· ≤ n)) with h | h <;>
        simp [Nat.add_mod, h]

theorem nodup_toList (s : SortedSet Nat) : s.toList.Nodup := by
  refine s.sorted.imp fun {a b} h e => ?_
  rw [e, Ordered.irrefl] at h
  cases h

/-- A set operation decides code point by code point. -/
theorem holds_combine (f : Bool → Bool → Bool) (hf : f false false = false) (k l : CharClass)
    (n : Nat) : (combine f k l).holds n = f (k.holds n) (l.holds n) := by
  have hmem (x : Nat) : x ∈ (SortedSet.ofList (k.turns ++ l.turns)).toList ↔
      x ∈ k.turns ∨ x ∈ l.turns := by
    rw [← SortedSet.mem_def, SortedSet.mem_ofList, List.mem_append]
  refine holds_changes _ _ (nodup_toList _) ?_ ?_ n
  · intro h
    rw [hmem, not_or] at h
    simp only [holds_zero k h.1, holds_zero l h.2, hf]
  · intro n h
    rw [hmem, not_or] at h
    simp only [holds_succ k n h.1, holds_succ l n h.2]

/-- The union of classes, too. -/
theorem holds_unions (ks : List CharClass) (n : Nat) :
    (unions ks).holds n = ks.any (·.holds n) := by
  have hmem (x : Nat) : x ∈ (SortedSet.ofList (ks.flatMap (·.turns))).toList ↔
      ∃ k ∈ ks, x ∈ k.turns := by
    rw [← SortedSet.mem_def, SortedSet.mem_ofList, List.mem_flatMap]
  refine holds_changes _ _ (nodup_toList _) ?_ ?_ n
  · intro h
    rw [List.any_eq_false]
    intro k hk
    simp [holds_zero k fun hz => h ((hmem 0).2 ⟨k, hk, hz⟩)]
  · intro n h
    rw [Bool.eq_iff_iff, List.any_eq_true, List.any_eq_true]
    refine exists_congr fun k => and_congr_right fun hk => ?_
    rw [holds_succ k n fun hn => h ((hmem (n + 1)).2 ⟨k, hk, hn⟩)]

/-! What a class that is made up of others contains, said of characters. -/

@[simp] theorem contains_union (k l : CharClass) (c : Char) :
    (k.union l).contains c = (k.contains c || l.contains c) :=
  holds_combine _ rfl k l c.toNat

@[simp] theorem contains_unions (ks : List CharClass) (c : Char) :
    (unions ks).contains c = ks.any (·.contains c) :=
  holds_unions ks c.toNat

@[simp] theorem contains_inter (k l : CharClass) (c : Char) :
    (k.inter l).contains c = (k.contains c && l.contains c) :=
  holds_combine _ rfl k l c.toNat

@[simp] theorem contains_diff (k l : CharClass) (c : Char) :
    (k.diff l).contains c = (k.contains c && !l.contains c) :=
  holds_combine _ rfl k l c.toNat

@[simp] theorem contains_symmDiff (k l : CharClass) (c : Char) :
    (k.symmDiff l).contains c = (k.contains c != l.contains c) :=
  holds_combine _ rfl k l c.toNat

@[simp] theorem contains_none (c : Char) : none.contains c = false := rfl

@[simp] theorem contains_complement (k : CharClass) (c : Char) :
    k.complement.contains c = !k.contains c := by
  obtain ⟨turns⟩ := k
  simp only [contains, holds, complement]
  split
  · rename_i rest
    simp only [List.countP_cons, Nat.zero_le, decide_true, if_true]
    rcases Nat.mod_two_eq_zero_or_one (rest.countP (· ≤ c.toNat)) with h | h <;>
      simp [Nat.add_mod, h]
  · simp only [List.countP_cons, Nat.zero_le, decide_true, if_true]
    rcases Nat.mod_two_eq_zero_or_one (turns.countP (· ≤ c.toNat)) with h | h <;>
      simp [Nat.add_mod, h]

/-! ## Ranges -/

/-- The greatest code point. -/
def greatest : Nat := 0x10FFFF

/-- The code point after a character.  No character has one of the code points from U+D800 to
U+DFFF. -/
def codeAfter (c : Char) : Nat := if c.toNat = 0xD7FF then 0xE000 else c.toNat + 1

/-- The last code point of a character before a given one. -/
def codeBefore (n : Nat) : Nat := if n = 0xE000 then 0xD7FF else n - 1

/-- The characters from the first to the last, both included. -/
def range (first last : Char) : CharClass :=
  if last.toNat < first.toNat then none
  else if last.toNat = greatest then ⟨[first.toNat]⟩
  else ⟨[first.toNat, codeAfter last]⟩

/-- The first and the last code points of the ranges that a list of turns stands for. -/
def rangesOf : List Nat → List (Nat × Nat)
  | [] => []
  | [first] => [(first, greatest)]
  | first :: stop :: turns => (first, codeBefore stop) :: rangesOf turns

/-- The ranges that a class consists of, in ascending order. -/
def ranges (k : CharClass) : List (Nat × Nat) := rangesOf k.turns

/-- The character that a class consists of, if it is a single one. -/
def single? (k : CharClass) : Option Char :=
  match k.ranges with
  | [(first, last)] => if first = last then some (Char.ofNat first) else Option.none
  | _ => Option.none

theorem lt_codeAfter_iff (c d : Char) : c.toNat < codeAfter d ↔ c.toNat ≤ d.toNat := by
  have h : c.toNat < 0xD800 ∨ 0xDFFF < c.toNat ∧ c.toNat < 0x110000 := c.valid
  unfold codeAfter
  split <;> omega

/-- A range contains what stands between its ends. -/
theorem contains_range (first last c : Char) :
    (range first last).contains c = (decide (first ≤ c) && decide (c ≤ last)) := by
  have hc : c.toNat < 0xD800 ∨ 0xDFFF < c.toNat ∧ c.toNat < 0x110000 := c.valid
  have hstop := lt_codeAfter_iff c last
  simp only [Char.le_def, UInt32.le_iff_toNat_le]
  change _ = (decide (first.toNat ≤ c.toNat) && decide (c.toNat ≤ last.toNat))
  unfold range
  split
  · rw [contains_none, eq_comm, Bool.and_eq_false_iff, decide_eq_false_iff_not,
      decide_eq_false_iff_not]
    omega
  · split
    · rename_i hlast
      have : c.toNat ≤ last.toNat := by rw [hlast, greatest]; omega
      by_cases h : first.toNat ≤ c.toNat <;> simp [contains, holds, h, this]
    · have hle : first.toNat ≤ codeAfter last := by
        unfold codeAfter
        split <;> omega
      by_cases h : first.toNat ≤ c.toNat <;> by_cases h' : codeAfter last ≤ c.toNat <;>
        simp [contains, holds, h, h'] <;> omega

/-! ## Particular classes -/

/-- One character alone. -/
def only (c : Char) : CharClass := range c c

/-- The given characters. -/
def ofList (cs : List Char) : CharClass := unions (cs.map only)

/-- All characters but the given ones. -/
def noneOf (cs : List Char) : CharClass := (ofList cs).complement

/-- The code points from the first one up to, but without, the stop. -/
def run (first stop : Nat) : CharClass := ⟨[first, stop]⟩

/-- The white space. -/
def blank : CharClass :=
  unions [run 0x9 0xE, run 0x20 0x21, run 0x85 0x86, run 0xA0 0xA1, run 0x1680 0x1681,
    run 0x2000 0x200B, run 0x2028 0x202A, run 0x202F 0x2030, run 0x205F 0x2060, run 0x3000 0x3001]

/-- All that is not white space. -/
def visible : CharClass := blank.complement

/-- The decimal digits. -/
def digit : CharClass := unions (Text.digitZeros.map fun first => run first (first + 10))

/-- All characters that a name may hold: no blanks, and no dollar sign. -/
def nameChar : CharClass := (blank.union (only '$')).complement

@[simp] theorem contains_only (d c : Char) : (only d).contains c = true ↔ c = d := by
  rw [only, contains_range, Bool.and_eq_true, decide_eq_true_eq, decide_eq_true_eq]
  constructor
  · rintro ⟨h₁, h₂⟩
    exact Char.le_antisymm h₂ h₁
  · rintro rfl
    exact ⟨Char.le_refl _, Char.le_refl _⟩

@[simp] theorem contains_ofList (cs : List Char) (c : Char) :
    (ofList cs).contains c = true ↔ c ∈ cs := by
  rw [ofList, contains_unions, List.any_map, List.any_eq_true]
  simp only [Function.comp_apply, contains_only]
  exact ⟨fun ⟨_, hd, e⟩ => e ▸ hd, fun h => ⟨c, h, rfl⟩⟩

theorem contains_noneOf (cs : List Char) (c : Char) :
    (noneOf cs).contains c = true ↔ ¬c ∈ cs := by
  rw [noneOf, contains_complement, Bool.not_eq_true', ← contains_ofList, Bool.not_eq_true]

theorem not_contains_noneOf {cs : List Char} {c : Char} (h : c ∈ cs) :
    (noneOf cs).contains c = false :=
  Bool.eq_false_iff.2 fun hc => (contains_noneOf cs c).1 hc h

/-- A run holds of the numbers from its first up to its end. -/
theorem holds_run (first stop n : Nat) (h : first ≤ stop) :
    (run first stop).holds n = (decide (first ≤ n) && decide (n < stop)) := by
  by_cases h₁ : first ≤ n <;> by_cases h₂ : stop ≤ n <;> simp [holds, run, h₁, h₂] <;> omega

/-- The class of the white space contains the blanks. -/
theorem contains_blank (c : Char) : blank.contains c = Text.isBlank c := by
  rw [contains, blank, holds_unions, Bool.eq_iff_iff]
  simp only [List.any_cons, List.any_nil, Text.isBlank, holds_run, decide_eq_true_eq, beq_iff_eq,
    Bool.or_eq_true, Bool.and_eq_true, Bool.false_eq_true, or_false, Nat.reduceLeDiff]
  omega

/-- The class of the digits contains the decimal digits. -/
theorem contains_digit (c : Char) : digit.contains c = Text.isDigit c := by
  rw [contains, digit, holds_unions, List.any_map, Text.isDigit]
  refine congrArg (List.any _) (funext fun first => ?_)
  rw [Function.comp_apply, holds_run _ _ _ (Nat.le_add_right ..)]

/-- Names are made up of all but dollar signs and blanks. -/
theorem contains_nameChar (c : Char) :
    nameChar.contains c = true ↔ c ≠ '$' ∧ Text.isBlank c = false := by
  rw [nameChar, contains_complement, contains_union, contains_blank, Bool.not_eq_true',
    Bool.or_eq_false_iff, and_comm, ← Bool.not_eq_true (contains _ _), contains_only]

end CharClass

end GuardedGrammar
