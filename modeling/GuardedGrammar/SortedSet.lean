/-
  Finite sets that list their members in ascending order.

  A set is a strictly ascending list, so two sets with the same members are the same list and equality
  of sets can be decided by comparing lists.  The order is given by `Ordered`.

  Main statements: `mem_insert` and `mem_union`, what the operations do to the members, and `ext`,
  sets with the same members are equal.
-/

namespace GuardedGrammar

/-- A strict order in which any two different things are comparable. -/
class Ordered (α : Type) where
  before : α → α → Bool
  irrefl : ∀ a, before a a = false
  trans : ∀ a b c, before a b = true → before b c = true → before a c = true
  total : ∀ a b, before a b = false → before b a = false → a = b

instance : Ordered Nat where
  before a b := decide (a < b)
  irrefl a := by simp
  trans a b c h₁ h₂ := by simp only [decide_eq_true_eq] at *; omega
  total a b h₁ h₂ := by simp only [decide_eq_false_iff_not] at *; omega

/-- Of two values not both come before the other. -/
theorem Ordered.asymm {α : Type} [Ordered α] {a b : α} (h : before a b = true) :
    before b a = false := by
  cases hb : before b a with
  | false => rfl
  | true => exact absurd (trans a b a h hb) (by simp [irrefl])

/-- A strictly ascending list. -/
structure SortedSet (α : Type) [Ordered α] where
  toList : List α
  sorted : toList.Pairwise fun a b => Ordered.before a b = true

namespace SortedSet

variable {α : Type} [Ordered α]

/-- The set without members. -/
def empty : SortedSet α := ⟨[], List.Pairwise.nil⟩

instance : EmptyCollection (SortedSet α) := ⟨empty⟩

instance : Inhabited (SortedSet α) := ⟨empty⟩

instance : Membership α (SortedSet α) := ⟨fun s a => a ∈ s.toList⟩

instance [DecidableEq α] : DecidableEq (SortedSet α) := fun s t =>
  if h : s.toList = t.toList then
    isTrue (by cases s; cases t; cases h; rfl)
  else isFalse fun e => h (e ▸ rfl)

/-- There are no members. -/
def isEmpty (s : SortedSet α) : Bool := s.toList.isEmpty

/-- Puts a member where it belongs, unless it is there already. -/
def insertInto (a : α) : List α → List α
  | [] => [a]
  | b :: l =>
    if Ordered.before a b then a :: b :: l
    else if Ordered.before b a then b :: insertInto a l
    else b :: l

/-- Inserting an element adds just this one. -/
theorem mem_insertInto (a x : α) (l : List α) : x ∈ insertInto a l ↔ x = a ∨ x ∈ l := by
  induction l with
  | nil => simp [insertInto]
  | cons b l ih =>
    unfold insertInto
    split
    · simp
    · split
      · simp only [List.mem_cons, ih]
        constructor
        · rintro (h | h | h)
          · exact .inr (.inl h)
          · exact .inl h
          · exact .inr (.inr h)
        · rintro (h | h | h)
          · exact .inr (.inl h)
          · exact .inl h
          · exact .inr (.inr h)
      · rename_i h₁ h₂
        have : a = b := Ordered.total a b (by simpa using h₁) (by simpa using h₂)
        subst this
        simp

/-- An element is inserted at its place in the order. -/
theorem sorted_insertInto (a : α) (l : List α)
    (h : l.Pairwise fun a b => Ordered.before a b = true) :
    (insertInto a l).Pairwise fun a b => Ordered.before a b = true := by
  induction l with
  | nil => simp [insertInto]
  | cons b l ih =>
    rw [List.pairwise_cons] at h
    unfold insertInto
    split
    · rename_i hab
      refine List.pairwise_cons.2 ⟨?_, List.pairwise_cons.2 h⟩
      intro c hc
      rcases List.mem_cons.1 hc with rfl | hc
      · exact hab
      · exact Ordered.trans a b c hab (h.1 c hc)
    · split
      · rename_i hba
        refine List.pairwise_cons.2 ⟨?_, ih h.2⟩
        intro c hc
        rcases (mem_insertInto a c l).1 hc with rfl | hc
        · exact hba
        · exact h.1 c hc
      · exact List.pairwise_cons.2 h

/-- The set with one more member. -/
def insert (s : SortedSet α) (a : α) : SortedSet α :=
  ⟨insertInto a s.toList, sorted_insertInto a s.toList s.sorted⟩

/-- The set with the members of a list added. -/
def insertAll (s : SortedSet α) (l : List α) : SortedSet α := l.foldl insert s

/-- The members of either set. -/
def union (s t : SortedSet α) : SortedSet α := s.insertAll t.toList

/-- The set of the members of a list. -/
def ofList (l : List α) : SortedSet α := insertAll empty l

instance : Union (SortedSet α) := ⟨union⟩

instance : Singleton α (SortedSet α) := ⟨fun a => ofList [a]⟩

theorem mem_def (a : α) (s : SortedSet α) : a ∈ s ↔ a ∈ s.toList := Iff.rfl

instance [DecidableEq α] (a : α) (s : SortedSet α) : Decidable (a ∈ s) :=
  inferInstanceAs (Decidable (a ∈ s.toList))

@[simp] theorem mem_empty (a : α) : ¬a ∈ (empty : SortedSet α) := by
  simp [mem_def, empty]

@[simp] theorem mem_insert (s : SortedSet α) (a x : α) : x ∈ s.insert a ↔ x = a ∨ x ∈ s :=
  mem_insertInto a x s.toList

@[simp] theorem mem_insertAll (s : SortedSet α) (l : List α) (x : α) :
    x ∈ s.insertAll l ↔ x ∈ l ∨ x ∈ s := by
  induction l generalizing s with
  | nil => simp [insertAll]
  | cons a l ih =>
    have := ih (s.insert a)
    simp only [insertAll, List.foldl_cons, List.mem_cons] at *
    rw [this, mem_insert]
    constructor
    · rintro (h | h | h)
      · exact .inl (.inr h)
      · exact .inl (.inl h)
      · exact .inr h
    · rintro ((h | h) | h)
      · exact .inr (.inl h)
      · exact .inl h
      · exact .inr (.inr h)

@[simp] theorem mem_union (s t : SortedSet α) (x : α) : x ∈ s ∪ t ↔ x ∈ s ∨ x ∈ t :=
  (mem_insertAll s t.toList x).trans Or.comm

@[simp] theorem mem_ofList (l : List α) (x : α) : x ∈ ofList l ↔ x ∈ l := by
  simp [ofList]

/-- Two ordered rows with the same members are the same, since each begins with the least of
them. -/
theorem toList_eq_of_mem_iff {l m : List α}
    (hl : l.Pairwise fun a b => Ordered.before a b = true)
    (hm : m.Pairwise fun a b => Ordered.before a b = true) (h : ∀ x, x ∈ l ↔ x ∈ m) : l = m := by
  induction l generalizing m with
  | nil =>
    cases m with
    | nil => rfl
    | cons b m => exact absurd ((h b).2 (by simp)) (by simp)
  | cons a l ih =>
    cases m with
    | nil => exact absurd ((h a).1 (by simp)) (by simp)
    | cons b m =>
      rw [List.pairwise_cons] at hl hm
      have hab : a = b := by
        rcases List.mem_cons.1 ((h a).1 (by simp)) with rfl | ha
        · rfl
        · rcases List.mem_cons.1 ((h b).2 (by simp)) with rfl | hb
          · rfl
          · have h₁ := Ordered.asymm (hm.1 a ha)
            rw [hl.1 b hb] at h₁
            cases h₁
      subst hab
      congr 1
      refine ih hl.2 hm.2 fun x => ?_
      constructor
      · intro hx
        rcases List.mem_cons.1 ((h x).1 (by simp [hx])) with rfl | hx'
        · exact absurd (hl.1 x hx) (by simp [Ordered.irrefl])
        · exact hx'
      · intro hx
        rcases List.mem_cons.1 ((h x).2 (by simp [hx])) with rfl | hx'
        · exact absurd (hm.1 x hx) (by simp [Ordered.irrefl])
        · exact hx'

/-- Sets with the same members are equal. -/
theorem ext {s t : SortedSet α} (h : ∀ x, x ∈ s ↔ x ∈ t) : s = t := by
  have := toList_eq_of_mem_iff s.sorted t.sorted h
  cases s
  cases t
  cases this
  rfl

end SortedSet

end GuardedGrammar
