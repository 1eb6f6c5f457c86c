/-
  Rounds of a closure, and states to explore.

  A round goes over the items that are there before it, and adds the productions that each waits for.
  What it has noted in the end is whether the round as a whole has added something (`closeNoting_eq`).  A
  round that adds something opens a production, so there is at most one round more than there are
  productions, whatever items the closure begins with.

  States are explored in the order in which they are listed, and the list grows while this goes on
  (`Explores`).  It never loses a state, so a state that has been explored leads only to states that are
  listed in the end (`Explores.enlistSuccessors_eq`).  The states that are listed are sets of items of
  productions and no two of them are the same, so there are fewer positions to go to than the
  exploration has fuel, and it is done before that is used up (`explores_explore`).
-/
import GuardedGrammar.Proofs.LeastClosed
import GuardedGrammar.Proofs.Passes
import Mathlib.Algebra.Order.Ring.Nat

namespace GuardedGrammar

variable {productions : List Production} {nonterminals symbols next : Nat} {items items' : ItemSet}
  {states states' result : List ItemSet}

/-! ## Rounds -/

namespace ItemSet

/-- What the one holds, the other holds as well. -/
def Le (items items' : ItemSet) : Prop := ∀ x ∈ items, x ∈ items'

/-- There is something that only the latter holds. -/
def Grows (items items' : ItemSet) : Prop := ∃ x ∈ items', x ∉ items

/-! Sets of items are ordered by what they hold. A set that has been added to is different if and
only if it has a new item. -/

theorem Le.antisymm (h : Le items items') (h' : Le items' items) : items = items' :=
  SortedSet.ext fun x => ⟨h x, h' x⟩

theorem le_insert (items : ItemSet) (x : Item) : Le items (items.insert x) :=
  fun y hy => (SortedSet.mem_insert items x y).2 (.inr hy)

theorem Le.ne_iff_grows (h : Le items items') : items' ≠ items ↔ Grows items items' := by
  constructor
  · intro hne
    refine Classical.byContradiction fun hnone => hne (Le.antisymm (fun x hx => ?_) h)
    exact Classical.byContradiction fun hnot => hnone ⟨x, hx, hnot⟩
  · rintro ⟨x, hx, hnot⟩ rfl
    exact hnot hx

end ItemSet

theorem le_closeOnce (productions : List Production) (nonterminals : Nat) (items : ItemSet) :
    ItemSet.Le items (closeOnce productions nonterminals items) :=
  fun x hx => (mem_closeOnce x).2 (.inr hx)

/-- Adding an item changes nothing if and only if it is there already. -/
theorem insert_eq_self_iff (items : ItemSet) (x : Item) : items.insert x = items ↔ x ∈ items := by
  constructor
  · intro hsame
    rw [← hsame]
    exact (SortedSet.mem_insert items x x).2 (.inl rfl)
  · intro hx
    refine SortedSet.ext fun y => ?_
    rw [SortedSet.mem_insert]
    exact or_iff_right_of_imp fun hy => hy ▸ hx

/-- An item is new if and only if the set is different with it. -/
theorem addNoting_eq (changed : Bool) (items : ItemSet) (x : Item) :
    addNoting (changed, items) x =
      (changed || decide (items.insert x ≠ items), items.insert x) := by
  show (changed || !decide (x ∈ items), _) = _
  rw [← decide_not]
  simp only [ne_eq, insert_eq_self_iff]

/-- The items that a set waits for are those that one of its members waits for. -/
theorem mem_flatMap_openedBy (x : Item) :
    x ∈ items.toList.flatMap (openedBy productions nonterminals) ↔
      x.Opens productions nonterminals items := by
  rw [List.mem_flatMap]
  constructor
  · rintro ⟨i, hi, hx⟩
    obtain ⟨hdot, p, hp, hlhs⟩ := (mem_openings _ x).1 hx
    obtain ⟨ho, hlt⟩ := Option.filter_eq_some_iff.1 (Option.mem_toList.1 hlhs)
    exact ⟨hdot, p, hp, of_decide_eq_true hlt, i, hi, ho⟩
  · rintro ⟨hdot, p, hp, hlt, i, hi, ho⟩
    refine ⟨i, hi, (mem_openings _ x).2 ⟨hdot, p, hp, Option.mem_toList.2 ?_⟩⟩
    exact Option.filter_eq_some_iff.2 ⟨ho, decide_eq_true hlt⟩

/-- What a round adds is noted if it is a different set that the round leaves. -/
theorem closeNoting_eq (productions : List Production) (nonterminals : Nat) (items : ItemSet) :
    closeNoting productions nonterminals items =
      (decide (closeOnce productions nonterminals items ≠ items),
        closeOnce productions nonterminals items) := by
  have hadds : (items.toList.flatMap (openedBy productions nonterminals)).foldl SortedSet.insert
      items = closeOnce productions nonterminals items := by
    refine SortedSet.ext fun x => ?_
    rw [mem_closeOnce, ← mem_flatMap_openedBy]
    exact SortedSet.mem_insertAll items _ x
  have hall := foldl_noting (fun _ : ItemSet => True) SortedSet.insert (fun _ _ h => h)
    (fun _ _ _ h h' x hx => h' x (h x hx)) (fun _ _ => ItemSet.Le.antisymm) ItemSet.le_insert
    (l := items.toList.flatMap (openedBy productions nonterminals)) (fun _ _ _ _ => trivial)
    (fun changed items _ x _ => addNoting_eq changed items x) false (a := items) trivial
  rwa [hadds] at hall

/-- A closure comes to its end after at most one round more than there are productions. -/
theorem settles_closure (productions : List Production) (nonterminals : Nat) (items : ItemSet) :
    Settles (closeNoting productions nonterminals) ItemSet.Le ItemSet.Grows (fun _ => True) items
      (settle (closeOnce productions nonterminals) (productions.length + 1) 1 items).2
      (productions.length + 1) (closure productions nonterminals items) := by
  refine settles_settle (fun a _ => closeNoting_eq productions nonterminals a)
    (fun _ _ => trivial) (le_closeOnce productions nonterminals)
    (fun _ _ => ItemSet.Le.ne_iff_grows) trivial closeOnce_closure ?_
  have hrounds : (settle (closeOnce productions nonterminals) (productions.length + 1) 1 items).2 +
      (opened productions items).card ≤ 1 + (Finset.range productions.length).card :=
    settle_snd_add_card_le (fun _ => True) (opened productions) (Finset.range productions.length)
      (fun _ _ => trivial) (fun _ _ => Finset.filter_subset _ _) (fun _ _ => opened_ssubset) _ 1
      trivial
  rw [Finset.card_range] at hrounds
  omega

/-! ## Exploring -/

/-- The states from a position on are explored one after the other, until the end of the list is
reached, which moves on with the states that are found. -/
inductive Explores (productions : List Production) (nonterminals symbols : Nat) :
    Nat → List ItemSet → List ItemSet → Prop
  | done {next : Nat} {states : List ItemSet} (hend : states[next]? = none) :
    Explores productions nonterminals symbols next states states
  | explore {next : Nat} {states result : List ItemSet} {s : ItemSet} (hs : states[next]? = some s)
    (hrest : Explores productions nonterminals symbols (next + 1)
      (enlistSuccessors productions nonterminals symbols states s) result) :
    Explores productions nonterminals symbols next states result

/-- There is one way to explore states. -/
theorem Explores.unique (h : Explores productions nonterminals symbols next states result)
    (h' : Explores productions nonterminals symbols next states states') : result = states' := by
  induction h with
  | done hend =>
    cases h' with
    | done _ => rfl
    | explore hs _ => exact nomatch hend.symm.trans hs
  | explore hs _ ih =>
    cases h' with
    | done hend => exact nomatch hend.symm.trans hs
    | explore hs' hrest =>
      obtain rfl := Option.some.inj (hs.symm.trans hs')
      exact ih hrest

/-- What is listed keeps its place. -/
theorem Explores.keeps (h : Explores productions nonterminals symbols next states result) :
    states <+: result := by
  induction h with
  | done _ => exact List.prefix_rfl
  | explore _ _ ih => exact (prefix_enlistSuccessors _ _ _ _ _).trans ih

/-- A set that is listed, or empty, is not listed again. -/
theorem enlist_eq_self {s : ItemSet} (h : s.isEmpty = false → s ∈ states) :
    enlist states s = states := by
  refine if_pos ?_
  cases hs : s.isEmpty with
  | true => rfl
  | false => exact List.contains_iff_mem.2 (h hs)

/-- A state that leads only to states that are listed adds none. -/
theorem enlistSuccessors_eq_self {s : ItemSet}
    (h : ∀ symbol < symbols, (successor productions nonterminals s symbol).isEmpty = false →
      successor productions nonterminals s symbol ∈ states) :
    enlistSuccessors productions nonterminals symbols states s = states := by
  have hrange : ∀ symbol ∈ List.range symbols,
      enlist states (successor productions nonterminals s symbol) = states :=
    fun symbol hsymbol => enlist_eq_self (h symbol (List.mem_range.1 hsymbol))
  unfold enlistSuccessors
  generalize List.range symbols = l at hrange ⊢
  induction l with
  | nil => rfl
  | cons symbol l ih =>
    rw [List.foldl_cons, hrange symbol List.mem_cons_self]
    exact ih fun symbol hsymbol => hrange symbol (List.mem_cons_of_mem _ hsymbol)

/-- A state that has been explored adds none to those that are listed in the end. -/
theorem Explores.enlistSuccessors_eq
    (h : Explores productions nonterminals symbols next states result) {i : Nat} (hi : next ≤ i)
    {s : ItemSet} (hs : result[i]? = some s) :
    enlistSuccessors productions nonterminals symbols result s = result := by
  induction h with
  | @done next states hend =>
    -- all states before the end have been explored
    have hlt := (List.getElem?_eq_some_iff.1 hs).1
    have hle := List.getElem?_eq_none_iff.1 hend
    omega
  | @explore next states result s' hs' hrest ih =>
    rcases Nat.lt_or_eq_of_le hi with hlt | rfl
    · exact ih hlt hs
    · -- what the state leads to was listed when it was explored, and has stayed
      have hgrows := (prefix_enlistSuccessors productions nonterminals symbols states s').trans
        hrest.keeps
      have hkept := getElem?_of_prefix hgrows hs'
      obtain rfl := Option.some.inj (hkept.symm.trans hs)
      refine enlistSuccessors_eq_self fun symbol hsymbol hne => hrest.keeps.subset ?_
      exact mem_enlistSuccessors.2 (.inr ⟨symbol, hsymbol, rfl, hne⟩)

/-- With more fuel than there are states to find, all of them are explored. -/
theorem explores_explore (fuel : Nat)
    (h : IsExplored productions nonterminals symbols next states)
    (hfuel : 2 ^ itemCount productions < fuel + next) :
    Explores productions nonterminals symbols next states
      (explore productions nonterminals symbols fuel next states) := by
  induction fuel generalizing next states with
  | zero =>
    have hlen := length_le_of_nodup h.nodup h.items
    exact .done (List.getElem?_eq_none_iff.2 (by omega))
  | succ fuel ih =>
    unfold explore
    split
    · rename_i hend
      exact .done hend
    · rename_i s hs
      exact .explore hs (ih (h.next hs) (by omega))

/-! ## The collection -/

/-- Without productions, there is nothing to read. -/
theorem collection_nil (nonterminals symbols : Nat) :
    Explores [] nonterminals symbols 0 [startState [] nonterminals]
        (collection [] nonterminals symbols) ∧
      collection [] nonterminals symbols = [startState [] nonterminals] := by
  have hstart : enlistSuccessors [] nonterminals symbols [startState [] nonterminals]
      (startState [] nonterminals) = [startState [] nonterminals] := by
    refine enlistSuccessors_eq_self fun symbol _ hne => ?_
    -- without productions no item waits for a symbol
    obtain ⟨i, -, ho⟩ := (successor_nonempty_iff symbol).1 hne
    exact nomatch ho
  have hall : collection [] nonterminals symbols = [startState [] nonterminals] := by
    show explore [] nonterminals symbols 1 1 (enlistSuccessors [] nonterminals symbols
      [startState [] nonterminals] (startState [] nonterminals)) = _
    rw [hstart]
    rfl
  refine ⟨.explore rfl ?_, hall⟩
  rw [hstart, hall]
  exact .done rfl

/-- The exploration comes to its end, and the collection is what it lists. -/
theorem explores_collection (productions : List Production) (nonterminals symbols : Nat) :
    Explores productions nonterminals symbols 0 [startState productions nonterminals]
      (collection productions nonterminals symbols) := by
  cases productions with
  | nil => exact (collection_nil nonterminals symbols).1
  | cons p rest =>
    have hstart : IsExplored (p :: rest) nonterminals symbols 0
        [startState (p :: rest) nonterminals] := by
      refine ⟨List.nodup_singleton _, fun s hs x hx => ?_, fun i hi => absurd hi (Nat.not_lt_zero i)⟩
      obtain rfl := List.mem_singleton.1 hs
      exact isOf_of_mem_startState (List.cons_ne_nil p rest) hx
    exact explores_explore _ hstart (Nat.lt_succ_self _)

/-- The number of items, as a sum over the productions. -/
theorem itemCount_eq_sum (productions : List Production) :
    itemCount productions = (productions.map fun p => p.rhs.length + 1).sum := by
  induction productions with
  | nil => rfl
  | cons p rest ih =>
    show p.rhs.length + 1 + itemCount rest = _
    rw [ih, List.map_cons, List.sum_cons]

/-- There are no more states than sets of items. -/
theorem length_collection_le (productions : List Production) (nonterminals symbols : Nat) :
    (collection productions nonterminals symbols).length ≤
      2 ^ (productions.map fun p => p.rhs.length + 1).sum := by
  cases productions with
  | nil =>
    rw [(collection_nil nonterminals symbols).2]
    exact Nat.le_refl 1
  | cons p rest =>
    rw [← itemCount_eq_sum]
    exact length_le_of_nodup (nodup_collection (List.cons_ne_nil p rest) nonterminals symbols)
      fun _ hs _ hx => isOf_of_mem_collection (List.cons_ne_nil p rest) hs hx

/-- An exploration comes to its end with no more states than the bound; there, no state leads to one
that is missing.  No state is lost when another one is explored. -/
structure Discovers (productions : List Production) (nonterminals symbols bound : Nat)
    (states : List ItemSet) : Prop where
  run : ∀ l, Explores productions nonterminals symbols 0 [startState productions nonterminals] l ↔
    l = states
  bounded : states.length ≤ bound
  stable : ∀ s ∈ states, enlistSuccessors productions nonterminals symbols states s = states
  keeps : ∀ l s, l <+: enlistSuccessors productions nonterminals symbols l s

/-- The collection comes about by exploring, and its size is bounded by the number of sets of
items. -/
theorem discovers_collection (productions : List Production) (nonterminals symbols : Nat) :
    Discovers productions nonterminals symbols (2 ^ (productions.map fun p => p.rhs.length + 1).sum)
      (collection productions nonterminals symbols) := by
  have hall := explores_collection productions nonterminals symbols
  refine ⟨fun l => ⟨fun h => h.unique hall, ?_⟩, length_collection_le _ _ _, fun s hs => ?_,
    prefix_enlistSuccessors _ _ _⟩
  · rintro rfl
    exact hall
  · obtain ⟨i, hi⟩ := List.mem_iff_getElem?.1 hs
    exact hall.enlistSuccessors_eq (Nat.zero_le i) hi

end GuardedGrammar
