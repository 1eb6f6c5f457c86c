/-
  The closure of a set of items is the least closed set that holds it.

  A set is closed if, with an item that waits for a nonterminal, it holds all productions of that
  nonterminal from their beginning (`IsClosed`).  The closure of a set is closed, because one round more
  adds nothing to it; and a round adds only what every closed set above it has anyway.  There is one
  least closed set (`IsLeastClosed.unique`), and the laws of closures follow from that: the closure of a
  closure, and the closure of two sets together, are what they are because there is a least closed set
  to compare them with.

  Main statement: `closure_least`.
-/
import GuardedGrammar.Proofs.Reachability

namespace GuardedGrammar

variable {productions : List Production} {nonterminals : Nat} {items items' c c' : ItemSet}

/-! ## Closed sets -/

/-- The set holds the beginnings of all productions that its items wait for. -/
def IsClosed (productions : List Production) (nonterminals : Nat) (items : ItemSet) : Prop :=
  ∀ x : Item, x.Opens productions nonterminals items → x ∈ items

/-- What two sets open together, one of them opens. -/
theorem Item.Opens.of_union {x : Item} (h : x.Opens productions nonterminals (items ∪ items')) :
    x.Opens productions nonterminals items ∨ x.Opens productions nonterminals items' := by
  obtain ⟨p, hp, hlt, i, hi, ho⟩ := h.awaited
  rcases (SortedSet.mem_union _ _ _).1 hi with hi | hi
  · exact .inl ⟨h.dot, p, hp, hlt, i, hi, ho⟩
  · exact .inr ⟨h.dot, p, hp, hlt, i, hi, ho⟩

/-- Two closed sets together are closed, since an item waits by itself. -/
theorem IsClosed.union (h : IsClosed productions nonterminals items)
    (h' : IsClosed productions nonterminals items') :
    IsClosed productions nonterminals (items ∪ items') := by
  intro x hx
  rw [SortedSet.mem_union]
  exact hx.of_union.imp (h x) (h' x)

/-! ## The least of them -/

/-- A closed set holds the items, and whatever closed set holds these holds all of it. -/
structure IsLeastClosed (productions : List Production) (nonterminals : Nat) (items c : ItemSet) :
    Prop where
  holds : ∀ x ∈ items, x ∈ c
  closed : IsClosed productions nonterminals c
  least : ∀ s, (∀ x ∈ items, x ∈ s) → IsClosed productions nonterminals s → ∀ x ∈ c, x ∈ s

/-- There is one least closed set only. -/
theorem IsLeastClosed.unique (h : IsLeastClosed productions nonterminals items c)
    (h' : IsLeastClosed productions nonterminals items c') : c = c' :=
  SortedSet.ext fun x => ⟨h.least c' h'.holds h'.closed x, h'.least c h.holds h.closed x⟩

/-- With more items there is more to hold. -/
theorem IsLeastClosed.mono (h : IsLeastClosed productions nonterminals items c)
    (h' : IsLeastClosed productions nonterminals items' c') (hsub : ∀ x ∈ items, x ∈ items') :
    ∀ x ∈ c, x ∈ c' :=
  h.least c' (fun x hx => h'.holds x (hsub x hx)) h'.closed

/-- A closed set is the least one that holds it. -/
theorem IsClosed.isLeastClosed (h : IsClosed productions nonterminals c) :
    IsLeastClosed productions nonterminals c c where
  holds _ hx := hx
  closed := h
  least _ hs _ := hs

/-- The least closed set of two sets is made of those of the two. -/
theorem IsLeastClosed.union (h : IsLeastClosed productions nonterminals items c)
    (h' : IsLeastClosed productions nonterminals items' c') :
    IsLeastClosed productions nonterminals (items ∪ items') (c ∪ c') where
  holds x hx := by
    rw [SortedSet.mem_union] at hx ⊢
    exact hx.imp (h.holds x) (h'.holds x)
  closed := h.closed.union h'.closed
  least s hs hclosed x hx := by
    -- what holds both sets of items holds each of them
    have hleft : ∀ y ∈ items, y ∈ s := fun y hy =>
      hs y ((SortedSet.mem_union _ _ _).2 (.inl hy))
    have hright : ∀ y ∈ items', y ∈ s := fun y hy =>
      hs y ((SortedSet.mem_union _ _ _).2 (.inr hy))
    rcases (SortedSet.mem_union _ _ _).1 hx with hx | hx
    · exact h.least s hleft hclosed x hx
    · exact h'.least s hright hclosed x hx

/-! ## Closures -/

/-- The closure is closed since another round adds nothing, and least since each round adds what any
closed set has. -/
theorem isLeastClosed_closure (productions : List Production) (nonterminals : Nat)
    (items : ItemSet) :
    IsLeastClosed productions nonterminals items (closure productions nonterminals items) where
  holds _ hx := mem_closure_of_mem hx
  closed _ hx := mem_closure_of_opens hx
  least s hs hclosed _ hx := by
    refine closure_induction (P := fun y => y ∈ s) hs ?_ hx
    intro i y p hi hdot hp hlt ho
    exact hclosed y ⟨hdot, p, hp, hlt, i, hi, ho⟩

/-- A symbol leads somewhere just if an item waits for it. -/
theorem successor_nonempty_iff (symbol : Nat) :
    (successor productions nonterminals items symbol).isEmpty = false ↔
      ∃ i ∈ items, i.observed? productions = some symbol := by
  constructor
  · exact exists_observed_of_successor
  · rintro ⟨i, hi, ho⟩
    exact isEmpty_eq_false_of_mem (advance_mem_successor hi ho)

/-- The closure of any set of items, wherever their dots are, is the least closed set that holds it.  So
a closure is its own closure, a larger set has a larger closure, and the closure of two sets together is
that of the one together with that of the other; and reading a symbol leads somewhere just if an item
waits for the symbol. -/
theorem closure_least (productions : List Production) (nonterminals : Nat) (items : ItemSet) :
    IsLeastClosed productions nonterminals items (closure productions nonterminals items) ∧
      closure productions nonterminals (closure productions nonterminals items) =
        closure productions nonterminals items ∧
      (∀ items', (∀ x ∈ items, x ∈ items') → ∀ x ∈ closure productions nonterminals items,
        x ∈ closure productions nonterminals items') ∧
      (∀ items', closure productions nonterminals (items ∪ items') =
        closure productions nonterminals items ∪ closure productions nonterminals items') ∧
      ∀ symbol, (successor productions nonterminals items symbol).isEmpty = false ↔
        ∃ i ∈ items, i.observed? productions = some symbol := by
  have hleast := isLeastClosed_closure productions nonterminals
  refine ⟨hleast items, ?_, fun items' hsub => ?_, fun items' => ?_, successor_nonempty_iff⟩
  · exact (hleast _).unique (hleast items).closed.isLeastClosed
  · exact (hleast items).mono (hleast items') hsub
  · exact (hleast _).unique ((hleast items).union (hleast items'))

/-- A list begins with a list, and a dot beyond the end waits for nothing. -/
example : (closure [⟨0, [1], false⟩, ⟨1, [1, 3, 2], false⟩, ⟨1, [2], false⟩] 2
    (.ofList [⟨1, 0⟩, ⟨2, 7⟩])).toList = [⟨1, 0⟩, ⟨2, 0⟩, ⟨2, 7⟩] := by
  decide +kernel

end GuardedGrammar
