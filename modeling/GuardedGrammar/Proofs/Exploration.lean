/-
  The collection of states.

  A state has only items that its productions have, with the dot somewhere on the right-hand side or
  behind it (`Item.IsOf`).  There are `itemCount` of these, so no more than `2 ^ itemCount` states can be
  told apart (`length_le_of_nodup`), which is less than the fuel that the exploration is given.
  Exploring a state lists what it leads to and keeps what is listed (`IsExplored.next`), so at the end, all
  states are explored.

  Main statements: `nodup_collection`, no state is listed twice, and `successor_mem_collection`, whatever
  a state of the collection leads to is in the collection.
-/
import GuardedGrammar.Proofs.Closure
import Mathlib.Data.Finset.Powerset

namespace GuardedGrammar

variable {productions : List Production} {nonterminals symbols : Nat} {items : ItemSet}

/-! ## Items of productions -/

/-- The item belongs to one of the productions, and its dot is not beyond the right-hand side. -/
def Item.IsOf (productions : List Production) (x : Item) : Prop :=
  ∃ p, productions[x.production]? = some p ∧ x.dot ≤ p.rhs.length

theorem Item.Opens.isOf {x : Item} (h : x.Opens productions nonterminals items) :
    x.IsOf productions := by
  obtain ⟨p, hp, -⟩ := h.awaited
  exact ⟨p, hp, h.dot ▸ Nat.zero_le _⟩

/-- An item that waits for a symbol has another one behind the symbol. -/
theorem Item.isOf_advance {x : Item} {symbol : Nat}
    (h : x.observed? productions = some symbol) : x.advance.IsOf productions := by
  obtain ⟨p, hp, hsymbol⟩ := (x.observed?_eq_some_iff symbol).1 h
  exact ⟨p, hp, (List.getElem?_eq_some_iff.1 hsymbol).1⟩

/-- The items of a successor have been moved on, or have been opened. -/
theorem isOf_of_mem_successor {symbol : Nat} {x : Item}
    (h : x ∈ successor productions nonterminals items symbol) : x.IsOf productions := by
  rcases mem_closure_cases h with hmoved | hopens
  · obtain ⟨i, -, ho, rfl⟩ := (mem_moved symbol x).1 hmoved
    exact Item.isOf_advance ho
  · exact hopens.isOf

/-- The items of the first state belong to productions, if there are any. -/
theorem isOf_of_mem_startState (hne : productions ≠ []) {x : Item}
    (h : x ∈ startState productions nonterminals) : x.IsOf productions := by
  rcases mem_startState_cases h with rfl | hopens
  · obtain ⟨p, rest, rfl⟩ := List.exists_cons_of_ne_nil hne
    exact ⟨p, rfl, Nat.zero_le _⟩
  · exact hopens.isOf

/-- The items of productions that are numbered from `j` on. -/
def itemsFrom (j : Nat) : List Production → List Item
  | [] => []
  | p :: rest => (List.range (p.rhs.length + 1)).map (Item.mk j) ++ itemsFrom (j + 1) rest

/-- A production has one item more than symbols on its right-hand side. -/
theorem length_itemsFrom (j : Nat) (productions : List Production) :
    (itemsFrom j productions).length = itemCount productions := by
  induction productions generalizing j with
  | nil => rfl
  | cons p rest ih =>
    show ((List.range (p.rhs.length + 1)).map (Item.mk j) ++ itemsFrom (j + 1) rest).length =
      p.rhs.length + 1 + itemCount rest
    rw [List.length_append, List.length_map, List.length_range, ih]

/-- All items of a production are listed. -/
theorem mem_itemsFrom {j i : Nat} {p : Production} (hp : productions[i]? = some p) {dot : Nat}
    (hdot : dot ≤ p.rhs.length) : ⟨j + i, dot⟩ ∈ itemsFrom j productions := by
  induction productions generalizing j i with
  | nil => exact nomatch hp
  | cons q rest ih =>
    cases i with
    | zero =>
      obtain rfl := Option.some.inj hp
      refine List.mem_append_left _ (List.mem_map.2 ⟨dot, ?_, rfl⟩)
      exact List.mem_range.2 (Nat.lt_succ_of_le hdot)
    | succ i =>
      have hrest : ⟨j + 1 + i, dot⟩ ∈ itemsFrom (j + 1) rest := ih hp
      rw [Nat.add_right_comm, Nat.add_assoc] at hrest
      exact List.mem_append_right _ hrest

/-- The members of a state. -/
def ItemSet.members (s : ItemSet) : Finset Item := s.toList.toFinset

theorem ItemSet.mem_members {s : ItemSet} {x : Item} : x ∈ s.members ↔ x ∈ s :=
  List.mem_toFinset

/-- States with the same items are the same. -/
theorem ItemSet.members_injective : Function.Injective ItemSet.members := by
  intro s t h
  refine SortedSet.ext fun x => ?_
  rw [← ItemSet.mem_members, h, ItemSet.mem_members]

/-- There are only so many states that can be told apart. -/
theorem length_le_of_nodup {states : List ItemSet} (hnodup : states.Nodup)
    (hitems : ∀ s ∈ states, ∀ x ∈ s, x.IsOf productions) :
    states.length ≤ 2 ^ itemCount productions := by
  -- a state is a subset of the items of the productions
  have hsub : (states.map ItemSet.members).toFinset ⊆
      (itemsFrom 0 productions).toFinset.powerset := by
    intro m hm
    obtain ⟨s, hs, rfl⟩ := List.mem_map.1 (List.mem_toFinset.1 hm)
    refine Finset.mem_powerset.2 fun x hx => List.mem_toFinset.2 ?_
    obtain ⟨p, hp, hdot⟩ := hitems s hs x (ItemSet.mem_members.1 hx)
    have hmem : ⟨0 + x.production, x.dot⟩ ∈ itemsFrom 0 productions := mem_itemsFrom hp hdot
    rwa [Nat.zero_add] at hmem
  calc states.length
      = (states.map ItemSet.members).toFinset.card := by
        rw [List.toFinset_card_of_nodup (hnodup.map ItemSet.members_injective), List.length_map]
    _ ≤ (itemsFrom 0 productions).toFinset.powerset.card := Finset.card_le_card hsub
    _ = 2 ^ (itemsFrom 0 productions).toFinset.card := Finset.card_powerset _
    _ ≤ 2 ^ itemCount productions :=
        Nat.pow_le_pow_right (by decide)
          ((List.toFinset_card_le _).trans_eq (length_itemsFrom 0 productions))

/-! ## Listing states

States are listed one after the other, and only if they are new and not empty. So a list without
repetitions stays one, and a state keeps its place. -/

/-- A set with an item is not empty. -/
theorem isEmpty_eq_false_of_mem {x : Item} (h : x ∈ items) : items.isEmpty = false := by
  obtain ⟨l, hl⟩ := items
  cases l with
  | nil => exact absurd h List.not_mem_nil
  | cons _ _ => rfl

/-- A set that is not empty has an item. -/
theorem exists_mem_of_isEmpty_eq_false (h : items.isEmpty = false) : ∃ x, x ∈ items := by
  obtain ⟨l, hl⟩ := items
  cases l with
  | nil => exact nomatch h
  | cons x _ => exact ⟨x, List.mem_cons_self⟩

/-- A state that is enlisted is added unless it is empty. -/
theorem mem_enlist {states : List ItemSet} {s x : ItemSet} :
    x ∈ enlist states s ↔ x ∈ states ∨ x = s ∧ s.isEmpty = false := by
  unfold enlist
  split
  · rename_i h
    refine ⟨.inl, fun hx => hx.elim id ?_⟩
    rintro ⟨rfl, hne⟩
    rw [hne, Bool.false_or] at h
    exact List.contains_iff_mem.1 h
  · rename_i h
    rw [Bool.or_eq_true, not_or] at h
    rw [List.mem_append, List.mem_singleton, and_iff_left (eq_false_of_ne_true h.1)]

/-- A state that is there already is not listed again. -/
theorem nodup_enlist {states : List ItemSet} (h : states.Nodup) (s : ItemSet) :
    (enlist states s).Nodup := by
  unfold enlist
  split
  · exact h
  · rename_i hnew
    rw [Bool.or_eq_true, not_or, List.contains_iff_mem] at hnew
    exact List.nodup_append.2 ⟨h, List.nodup_singleton s, fun a ha b hb =>
      List.mem_singleton.1 hb ▸ fun he => hnew.2 (he ▸ ha)⟩

/-- What a state leads to is added, symbol by symbol, unless it is empty. -/
theorem mem_enlistSuccessors {states : List ItemSet} {s x : ItemSet} :
    x ∈ enlistSuccessors productions nonterminals symbols states s ↔
      x ∈ states ∨ ∃ symbol < symbols, x = successor productions nonterminals s symbol ∧
        x.isEmpty = false := by
  -- symbols that come later may find a state that an earlier one has added
  suffices h : ∀ l : List Nat, ∀ states, x ∈ l.foldl (fun states symbol =>
      enlist states (successor productions nonterminals s symbol)) states ↔
      x ∈ states ∨ ∃ symbol ∈ l, x = successor productions nonterminals s symbol ∧
        x.isEmpty = false by
    refine (h (List.range symbols) states).trans (or_congr_right ?_)
    exact exists_congr fun symbol => and_congr_left' List.mem_range
  intro l
  induction l with
  | nil =>
    intro states
    exact (or_iff_left fun ⟨_, h, _⟩ => absurd h List.not_mem_nil).symm
  | cons symbol l ih =>
    intro states
    rw [List.foldl_cons, ih, mem_enlist, or_assoc, List.exists_mem_cons_iff]
    refine or_congr_right (or_congr_left ?_)
    exact and_congr_right fun hx => by rw [hx]

theorem nodup_enlistSuccessors {states : List ItemSet} (h : states.Nodup) (s : ItemSet) :
    (enlistSuccessors productions nonterminals symbols states s).Nodup := by
  unfold enlistSuccessors
  induction List.range symbols generalizing states with
  | nil => exact h
  | cons symbol l ih => exact ih (nodup_enlist h _)

/-- New states come behind those that are there. -/
theorem prefix_enlist (states : List ItemSet) (s : ItemSet) : states <+: enlist states s := by
  unfold enlist
  split
  · exact List.prefix_rfl
  · exact List.prefix_append _ _

theorem prefix_enlistSuccessors (productions : List Production) (nonterminals symbols : Nat)
    (states : List ItemSet) (s : ItemSet) :
    states <+: enlistSuccessors productions nonterminals symbols states s :=
  le_foldl List.IsPrefix (fun _ => List.prefix_rfl) (fun _ _ _ => List.IsPrefix.trans)
    (fun states symbol => prefix_enlist states (successor productions nonterminals s symbol)) _ _

/-! ## Exploring states -/

/-- What has been listed keeps its place when more is listed behind it. -/
theorem getElem?_of_prefix {states states' : List ItemSet} (h : states <+: states') {i : Nat}
    {s : ItemSet} (hs : states[i]? = some s) : states'[i]? = some s := by
  obtain ⟨more, rfl⟩ := h
  rw [List.getElem?_append_left (List.getElem?_eq_some_iff.1 hs).1]
  exact hs

/-- An exploration keeps the list that it begins with. -/
theorem prefix_explore (productions : List Production) (nonterminals symbols fuel next : Nat)
    (states : List ItemSet) :
    states <+: explore productions nonterminals symbols fuel next states := by
  induction fuel generalizing next states with
  | zero => exact List.prefix_rfl
  | succ fuel ih =>
    unfold explore
    split
    · exact List.prefix_rfl
    · exact (prefix_enlistSuccessors _ _ _ _ _).trans (ih _ _)

/-- No state is listed twice, all have items of productions only, and whatever the states before
position `next` lead to is listed. -/
structure IsExplored (productions : List Production) (nonterminals symbols next : Nat)
    (states : List ItemSet) : Prop where
  nodup : states.Nodup
  items : ∀ s ∈ states, ∀ x ∈ s, x.IsOf productions
  successors : ∀ i < next, ∀ s, states[i]? = some s → ∀ symbol < symbols,
    (successor productions nonterminals s symbol).isEmpty = false →
      successor productions nonterminals s symbol ∈ states

/-- To list what the next state leads to explores one state more. -/
theorem IsExplored.next {states : List ItemSet} {next : Nat} {s : ItemSet}
    (h : IsExplored productions nonterminals symbols next states) (hs : states[next]? = some s) :
    IsExplored productions nonterminals symbols (next + 1)
      (enlistSuccessors productions nonterminals symbols states s) where
  nodup := nodup_enlistSuccessors h.nodup s
  items s' hs' x hx := by
    rcases mem_enlistSuccessors.1 hs' with hs' | ⟨_, -, rfl, -⟩
    · exact h.items s' hs' x hx
    · exact isOf_of_mem_successor hx
  successors i hi s' hs' symbol hsymbol hne := by
    -- what was listed before has kept its place
    have hget : states[i]? = some s' := by
      have hlt : i < states.length :=
        Nat.lt_of_lt_of_le hi (List.getElem?_eq_some_iff.1 hs).1
      obtain ⟨l, hl⟩ := prefix_enlistSuccessors productions nonterminals symbols states s
      rwa [← hl, List.getElem?_append_left hlt] at hs'
    rcases Nat.lt_or_eq_of_le (Nat.le_of_lt_succ hi) with hlt | rfl
    · exact mem_enlistSuccessors.2 (.inl (h.successors i hlt s' hget symbol hsymbol hne))
    · obtain rfl := Option.some.inj (hs.symm.trans hget)
      exact mem_enlistSuccessors.2 (.inr ⟨symbol, hsymbol, rfl, hne⟩)

/-- An exploration with more fuel than there are states to find explores all that it finds. -/
theorem isExplored_explore {fuel next : Nat} {states : List ItemSet}
    (h : IsExplored productions nonterminals symbols next states)
    (hfuel : 2 ^ itemCount productions < fuel + next) :
    IsExplored productions nonterminals symbols
      (explore productions nonterminals symbols fuel next states).length
      (explore productions nonterminals symbols fuel next states) := by
  -- a position beyond the end stands for all of the states
  have hall : ∀ {next states}, IsExplored productions nonterminals symbols next states →
      states.length ≤ next → IsExplored productions nonterminals symbols states.length states :=
    fun h hle => ⟨h.nodup, h.items, fun i hi => h.successors i (Nat.lt_of_lt_of_le hi hle)⟩
  induction fuel generalizing next states with
  | zero =>
    have hlen := length_le_of_nodup h.nodup h.items
    have hle : states.length ≤ next := by omega
    exact hall h hle
  | succ fuel ih =>
    unfold explore
    split
    · -- there is no state left to be explored
      rename_i hnone
      exact hall h (List.getElem?_eq_none_iff.1 hnone)
    · rename_i s hs
      exact ih (h.next hs) (by omega)

/-- The collection has enough fuel, so it is explored to its end. -/
theorem isExplored_collection (hne : productions ≠ []) (nonterminals symbols : Nat) :
    IsExplored productions nonterminals symbols (collection productions nonterminals symbols).length
      (collection productions nonterminals symbols) := by
  refine isExplored_explore ⟨List.nodup_singleton _, fun s hs x hx => ?_, fun i hi => ?_⟩ ?_
  · obtain rfl := List.mem_singleton.1 hs
    exact isOf_of_mem_startState hne hx
  · exact absurd hi (Nat.not_lt_zero i)
  · exact Nat.lt_succ_self _

/-! ## The collection -/

/-- The first state stands at the front. -/
theorem getElem?_zero_collection (productions : List Production) (nonterminals symbols : Nat) :
    (collection productions nonterminals symbols)[0]? =
      some (startState productions nonterminals) := by
  have hgrows := prefix_explore productions nonterminals symbols
    (Nat.pow 2 (itemCount productions) + 1) 0 [startState productions nonterminals]
  exact getElem?_of_prefix hgrows rfl

/-- No state is listed twice in the collection. -/
theorem nodup_collection (hne : productions ≠ []) (nonterminals symbols : Nat) :
    (collection productions nonterminals symbols).Nodup :=
  (isExplored_collection hne nonterminals symbols).nodup

/-- The states have only items that the productions have. -/
theorem isOf_of_mem_collection (hne : productions ≠ []) {s : ItemSet}
    (hs : s ∈ collection productions nonterminals symbols) {x : Item} (hx : x ∈ s) :
    x.IsOf productions :=
  (isExplored_collection hne nonterminals symbols).items s hs x hx

/-- Whatever a state leads to is a state, unless it is empty. -/
theorem successor_mem_collection (hne : productions ≠ []) {s : ItemSet}
    (hs : s ∈ collection productions nonterminals symbols) {symbol : Nat} (hsymbol : symbol < symbols)
    {x : Item} (hx : x ∈ s) (ho : x.observed? productions = some symbol) :
    successor productions nonterminals s symbol ∈ collection productions nonterminals symbols := by
  obtain ⟨i, hi⟩ := List.mem_iff_getElem?.1 hs
  have hlt := (List.getElem?_eq_some_iff.1 hi).1
  exact (isExplored_collection hne nonterminals symbols).successors i hlt s hi symbol hsymbol
    (isEmpty_eq_false_of_mem (advance_mem_successor hx ho))

end GuardedGrammar
