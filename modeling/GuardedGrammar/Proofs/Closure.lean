/-
  Closed sets of items.

  The closure of a set adds productions from their beginning, and only those of nonterminals that
  some item of the closure waits for (`mem_closure_cases`); so what is passed on from items to the
  productions that they wait for holds of all of it (`closure_induction`).  It adds all of them
  (`mem_closure_of_opens`): a round that changes the set adds the beginning of a production, of which
  there are fewer than the rounds that closure is given.
-/
import GuardedGrammar.Automaton.Collection
import GuardedGrammar.Proofs.Fixpoint
import Mathlib.Data.Finset.Range
import Mathlib.Data.Finset.Filter

namespace GuardedGrammar

variable {productions : List Production} {nonterminals : Nat} {items : ItemSet}

/-! ## Sets of items -/

theorem SortedSet.mem_singleton {α : Type} [Ordered α] (a x : α) :
    x ∈ ({a} : SortedSet α) ↔ x = a :=
  (mem_ofList [a] x).trans List.mem_singleton

/-- An item waits for the symbol that stands behind its dot in its production. -/
theorem Item.observed?_eq_some_iff (i : Item) (symbol : Nat) :
    i.observed? productions = some symbol ↔
      ∃ p, productions[i.production]? = some p ∧ p.rhs[i.dot]? = some symbol :=
  Option.bind_eq_some_iff

/-- The item is the beginning of a production of a nonterminal that an item of the set waits for. -/
structure Item.Opens (productions : List Production) (nonterminals : Nat) (items : ItemSet)
    (x : Item) : Prop where
  dot : x.dot = 0
  awaited : ∃ p, productions[x.production]? = some p ∧ p.lhs < nonterminals ∧
    ∃ i ∈ items, i.observed? productions = some p.lhs

theorem Item.Opens.mono {items' : ItemSet} {x : Item} (h : x.Opens productions nonterminals items)
    (hsub : ∀ i ∈ items, i ∈ items') : x.Opens productions nonterminals items' := by
  obtain ⟨p, hp, hlt, i, hi, ho⟩ := h.awaited
  exact ⟨h.dot, p, hp, hlt, i, hsub i hi, ho⟩

/-! ## One round -/

/-- The nonterminals that are waited for, without the terminals. -/
theorem mem_awaited (symbol : Nat) :
    symbol ∈ awaited productions nonterminals items ↔
      symbol < nonterminals ∧ ∃ i ∈ items, i.observed? productions = some symbol := by
  unfold awaited
  rw [List.mem_filter, List.mem_filterMap, decide_eq_true_eq, and_comm]
  rfl

/-- The beginnings of the productions of the given symbols. -/
theorem mem_openings (symbols : List Nat) (x : Item) :
    x ∈ openings productions symbols ↔
      x.dot = 0 ∧ ∃ p, productions[x.production]? = some p ∧ p.lhs ∈ symbols := by
  obtain ⟨j, d⟩ := x
  unfold openings
  rw [List.mem_filterMap]
  constructor
  · -- the number of a production is the place where it stands in the list
    rintro ⟨⟨p, i⟩, hmem, hx⟩
    rw [List.mem_zipIdx_iff_getElem?] at hmem
    dsimp only at hx hmem
    split at hx
    · rename_i hs
      injection Option.some.inj hx with hj hd
      subst hj hd
      exact ⟨rfl, p, hmem, List.contains_iff_mem.1 hs⟩
    · exact nomatch hx
  · rintro ⟨hd, p, hp, hs⟩
    dsimp only at hd hp
    refine ⟨(p, j), List.mem_zipIdx_iff_getElem?.2 hp, ?_⟩
    dsimp only
    rw [if_pos (List.contains_iff_mem.2 hs), hd]

/-- A round adds the beginnings of what is waited for, and takes nothing away. -/
theorem mem_closeOnce (x : Item) :
    x ∈ closeOnce productions nonterminals items ↔
      x.Opens productions nonterminals items ∨ x ∈ items := by
  unfold closeOnce
  rw [SortedSet.mem_insertAll, mem_openings]
  refine or_congr_left ?_
  constructor
  · rintro ⟨hd, p, hp, hs⟩
    obtain ⟨hlt, hi⟩ := (mem_awaited _).1 hs
    exact ⟨hd, p, hp, hlt, hi⟩
  · rintro ⟨hd, p, hp, hlt, hi⟩
    exact ⟨hd, p, hp, (mem_awaited _).2 ⟨hlt, hi⟩⟩

/-! ## The closure -/

/-- Rounds take nothing away, so a closure has all of its set. -/
theorem mem_closure_of_mem {x : Item} (h : x ∈ items) :
    x ∈ closure productions nonterminals items :=
  settle_induction (fun a => x ∈ a) (fun _ ha => (mem_closeOnce x).2 (.inr ha)) _ _ h

/-- What is in a closure was there before, or is the beginning of a production that the closure
    waits for. -/
theorem mem_closure_cases {x : Item} (h : x ∈ closure productions nonterminals items) :
    x ∈ items ∨ x.Opens productions nonterminals (closure productions nonterminals items) := by
  refine settle_induction
    (fun a => ∀ x ∈ a, x ∈ items ∨ x.Opens productions nonterminals a) ?_ _ _
    (fun x hx => .inl hx) x h
  intro a ha x hx
  have hsub : ∀ i ∈ a, i ∈ closeOnce productions nonterminals a := fun i hi =>
    (mem_closeOnce i).2 (.inr hi)
  -- what a round adds was waited for before the round, and still is
  rcases (mem_closeOnce x).1 hx with hopens | hx
  · exact .inr (hopens.mono hsub)
  · exact (ha x hx).imp_right fun hopens => hopens.mono hsub

/-- What holds of the items of a set, and of a production that an item waits for whenever it holds of
the item, holds of the closure of the set. -/
theorem closure_induction {P : Item → Prop} (base : ∀ x ∈ items, P x)
    (opens : ∀ i x p, P i → x.dot = 0 → productions[x.production]? = some p →
      p.lhs < nonterminals → i.observed? productions = some p.lhs → P x)
    {x : Item} (h : x ∈ closure productions nonterminals items) : P x := by
  refine settle_induction (fun a => ∀ x ∈ a, P x) ?_ _ _ base x h
  intro a ha x hx
  -- what a round adds is the beginning of a production that an item waits for
  rcases (mem_closeOnce x).1 hx with hopens | hx
  · obtain ⟨p, hp, hlt, i, hi, ho⟩ := hopens.awaited
    exact opens i x p (ha i hi) hopens.dot hp hlt ho
  · exact ha x hx

/-- The productions whose beginning is in the set. -/
def opened (productions : List Production) (items : ItemSet) : Finset Nat :=
  (Finset.range productions.length).filter fun j => (⟨j, 0⟩ : Item) ∈ items

/-- A round that changes the set adds the beginning of a production. -/
theorem opened_ssubset (h : closeOnce productions nonterminals items ≠ items) :
    opened productions items ⊂ opened productions (closeOnce productions nonterminals items) := by
  obtain ⟨x, hx⟩ : ∃ x, ¬(x ∈ closeOnce productions nonterminals items ↔ x ∈ items) := by
    refine Classical.not_forall.1 fun hall => h (SortedSet.ext hall)
  have hsub : ∀ x ∈ items, x ∈ closeOnce productions nonterminals items := fun x hx =>
    (mem_closeOnce x).2 (.inr hx)
  have hnew : x ∉ items := fun hi => hx ⟨fun _ => hi, hsub x⟩
  have hmem : x ∈ closeOnce productions nonterminals items :=
    Classical.byContradiction fun hn => hx ⟨fun hc => absurd hc hn, hsub x⟩
  -- what is new begins a production that was not begun before
  have hopens := ((mem_closeOnce x).1 hmem).resolve_right hnew
  obtain ⟨p, hp, -⟩ := hopens.awaited
  have hlt : x.production < productions.length := (List.getElem?_eq_some_iff.1 hp).1
  have hx0 : x = ⟨x.production, 0⟩ := by
    rw [← hopens.dot]
  refine (Finset.ssubset_iff_of_subset fun j hj => ?_).2 ⟨x.production, ?_, ?_⟩
  · rw [opened, Finset.mem_filter] at hj ⊢
    exact ⟨hj.1, hsub _ hj.2⟩
  · rw [opened, Finset.mem_filter, ← hx0]
    exact ⟨Finset.mem_range.2 hlt, hmem⟩
  · rw [opened, Finset.mem_filter, ← hx0]
    exact fun hc => hnew hc.2

/-- The closure lacks no production that it waits for. -/
theorem closeOnce_closure :
    closeOnce productions nonterminals (closure productions nonterminals items) =
      closure productions nonterminals items :=
  settle_fixed (fun _ => True) (opened productions) (Finset.range productions.length)
    (fun _ _ => trivial)
    (fun _ _ => Finset.filter_subset _ _) (fun _ _ h => opened_ssubset h) 1 trivial
    (by rw [Finset.card_range]; exact Nat.lt_succ_self _)

/-- What a closure waits for has its beginning in it, since another round would change nothing. -/
theorem mem_closure_of_opens {x : Item}
    (h : x.Opens productions nonterminals (closure productions nonterminals items)) :
    x ∈ closure productions nonterminals items := by
  rw [← closeOnce_closure]
  exact (mem_closeOnce x).2 (.inl h)

/-! ## Reading a symbol -/

/-- Those that have waited for the symbol, with their dot one place further. -/
theorem mem_moved (symbol : Nat) (x : Item) :
    x ∈ moved productions items symbol ↔
      ∃ i ∈ items, i.observed? productions = some symbol ∧ i.advance = x := by
  unfold moved
  rw [SortedSet.mem_ofList, List.mem_map]
  constructor
  · rintro ⟨i, hi, hx⟩
    rw [List.mem_filter, beq_iff_eq] at hi
    exact ⟨i, hi.1, hi.2, hx⟩
  · rintro ⟨i, hi, ho, hx⟩
    exact ⟨i, List.mem_filter.2 ⟨hi, beq_iff_eq.2 ho⟩, hx⟩

/-- An item that waits for a symbol goes on behind it. -/
theorem advance_mem_successor {symbol : Nat} {i : Item} (hi : i ∈ items)
    (ho : i.observed? productions = some symbol) :
    i.advance ∈ successor productions nonterminals items symbol :=
  mem_closure_of_mem ((mem_moved symbol _).2 ⟨i, hi, ho, rfl⟩)

/-- An item of a successor whose dot is not at the beginning comes from one that has waited for the
    symbol. -/
theorem mem_of_succ_mem_successor {symbol j d : Nat}
    (h : ⟨j, d + 1⟩ ∈ successor productions nonterminals items symbol) :
    ⟨j, d⟩ ∈ items ∧ (⟨j, d⟩ : Item).observed? productions = some symbol := by
  -- with its dot behind a symbol, the item has been moved, and was not opened by the closure
  rcases mem_closure_cases h with hm | hopens
  · obtain ⟨⟨j', d'⟩, hi, ho, hx⟩ := (mem_moved symbol _).1 hm
    injection hx with hj hd
    obtain rfl : j' = j := hj
    obtain rfl : d' = d := Nat.succ.inj hd
    exact ⟨hi, ho⟩
  · exact absurd hopens.dot (Nat.succ_ne_zero d)

/-- An item of a successor whose dot is at the beginning belongs to a nonterminal that the successor
    waits for. -/
theorem opens_of_zero_mem_successor {symbol j : Nat}
    (h : ⟨j, 0⟩ ∈ successor productions nonterminals items symbol) :
    (⟨j, 0⟩ : Item).Opens productions nonterminals
      (successor productions nonterminals items symbol) := by
  rcases mem_closure_cases h with hm | hopens
  · obtain ⟨i, _, _, hx⟩ := (mem_moved symbol _).1 hm
    injection hx with _ hd
    exact absurd hd (Nat.succ_ne_zero i.dot)
  · exact hopens

/-- The first state holds the start production from its beginning, and what that waits for. -/
theorem mem_startState_cases {x : Item} (h : x ∈ startState productions nonterminals) :
    x = ⟨startProduction, 0⟩ ∨
      x.Opens productions nonterminals (startState productions nonterminals) :=
  (mem_closure_cases h).imp_left (SortedSet.mem_singleton _ x).1

theorem dot_of_mem_startState {x : Item} (h : x ∈ startState productions nonterminals) :
    x.dot = 0 := by
  rcases mem_startState_cases h with rfl | hopens
  · rfl
  · exact hopens.dot

theorem start_mem_startState :
    ⟨startProduction, 0⟩ ∈ startState productions nonterminals :=
  mem_closure_of_mem ((SortedSet.mem_singleton _ _).2 rfl)

end GuardedGrammar
