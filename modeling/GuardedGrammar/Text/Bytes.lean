/-
  The bytes of a text.

  Places in a text are told by the bytes before them, and a character takes one to four bytes, so
  what is counted in bytes and what is counted in characters are two things.  Not every number of
  bytes is a place: a text can be taken up only where one of its characters begins, and at its end.

  Main statement: `sliceFrom?_eq_some_iff`, a text can be taken up at some byte exactly if that many
  bytes are those of a beginning of it.
-/

namespace GuardedGrammar.Text

/-- How many bytes a text takes in UTF-8. -/
def byteSize : List Char → Nat
  | [] => 0
  | c :: rest => c.utf8Size + byteSize rest

/-- The text from some byte on. There is none from inside a character, nor from behind the end. -/
def sliceFrom? : Nat → List Char → Option (List Char)
  | 0, text => some text
  | _ + 1, [] => none
  | n + 1, c :: rest => if n + 1 < c.utf8Size then none else sliceFrom? (n + 1 - c.utf8Size) rest

@[simp] theorem byteSize_nil : byteSize [] = 0 := rfl

@[simp] theorem byteSize_cons (c : Char) (text : List Char) :
    byteSize (c :: text) = c.utf8Size + byteSize text := rfl

/-- Two texts take as many bytes as both together. -/
theorem byteSize_append (first second : List Char) :
    byteSize (first ++ second) = byteSize first + byteSize second := by
  induction first with
  | nil => simp
  | cons c rest ih => simp only [List.cons_append, byteSize_cons, ih, Nat.add_assoc]

/-- A part takes no more bytes than the whole. -/
theorem byteSize_le_of_isInfix {part text : List Char} (h : part <:+: text) :
    byteSize part ≤ byteSize text := by
  obtain ⟨before, behind, rfl⟩ := h
  rw [byteSize_append, byteSize_append]
  omega

/-- A text that is not empty takes a byte at least. -/
theorem byteSize_pos_iff (text : List Char) : 0 < byteSize text ↔ text ≠ [] := by
  cases text with
  | nil => simp
  | cons c rest =>
    have := Char.utf8Size_pos c
    simp only [byteSize_cons, ne_eq, reduceCtorEq, not_false_eq_true, iff_true]
    omega

@[simp] theorem sliceFrom?_zero (text : List Char) : sliceFrom? 0 text = some text := by
  cases text <;> rfl

/-- Behind a beginning of a text, the text is taken up as if nothing stood before. -/
theorem sliceFrom?_byteSize_add (before text : List Char) (n : Nat) :
    sliceFrom? (byteSize before + n) (before ++ text) = sliceFrom? n text := by
  induction before with
  | nil => rw [byteSize_nil, Nat.zero_add, List.nil_append]
  | cons c rest ih =>
    have := Char.utf8Size_pos c
    obtain ⟨k, hk⟩ : ∃ k, byteSize (c :: rest) + n = k + 1 := ⟨byteSize (c :: rest) + n - 1, by
      rw [byteSize_cons]
      omega⟩
    rw [hk, List.cons_append, sliceFrom?, ← hk, byteSize_cons, if_neg (by omega), ← ih]
    congr 1
    omega

/-- Behind the bytes of its beginning, a text can be taken up. -/
theorem sliceFrom?_append (before text : List Char) :
    sliceFrom? (byteSize before) (before ++ text) = some text :=
  (sliceFrom?_byteSize_add before text 0).trans (sliceFrom?_zero text)

/-- A text can be taken up where its bytes so far are those of a beginning of it, and nowhere else. -/
theorem sliceFrom?_eq_some_iff {n : Nat} {text rest : List Char} :
    sliceFrom? n text = some rest ↔ ∃ before, before ++ rest = text ∧ byteSize before = n := by
  refine ⟨fun h => ?_, ?_⟩
  · fun_induction sliceFrom? n text with
    | case1 => exact ⟨[], Option.some.inj h.symm, rfl⟩
    | case2 => exact nomatch h
    | case3 => exact nomatch h
    | case4 n c text hfits ih =>
      obtain ⟨before, htext, hsize⟩ := ih h
      refine ⟨c :: before, congrArg (c :: ·) htext, ?_⟩
      rw [byteSize_cons]
      omega
  · rintro ⟨before, rfl, rfl⟩
    exact sliceFrom?_append before rest

/-- Farther on in a text, less of it is left. -/
theorem length_lt_of_sliceFrom? {m n : Nat} {text rest left : List Char}
    (hrest : sliceFrom? m text = some rest) (hleft : sliceFrom? n text = some left) (hlt : m < n) :
    left.length < rest.length := by
  obtain ⟨first, htext, hm⟩ := sliceFrom?_eq_some_iff.1 hrest
  obtain ⟨second, htext', hn⟩ := sliceFrom?_eq_some_iff.1 hleft
  rcases List.append_eq_append_iff.1 (htext.trans htext'.symm) with ⟨u, rfl, rfl⟩ | ⟨u, rfl, -⟩
  · rw [byteSize_append] at hn
    have hu := List.length_pos_iff.2 ((byteSize_pos_iff u).1 (by omega))
    rw [List.length_append]
    omega
  · rw [byteSize_append] at hm
    omega

end GuardedGrammar.Text
