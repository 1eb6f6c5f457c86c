/-
  The states of the automaton are what can be reached.

  Reading symbols leads from the first state to sets of items, and those that are not empty are the
  states (`Reached`).  The exploration finds nothing else, because whatever it adds to its list is what
  a state further up leads to (`IsLinked`, kept by each state that is explored); and it misses nothing,
  because at the end every state of the list has been explored.

  Main statement: `collection_enumerates`, the collection lists the states, each once and each behind
  one that leads to it.
-/
import GuardedGrammar.Proofs.Exploration

namespace GuardedGrammar

variable {productions : List Production} {nonterminals symbols : Nat}

/-! ## What can be reached -/

/-- What reading finitely many symbols leads to from the first state. -/
inductive Reached (productions : List Production) (nonterminals symbols : Nat) : ItemSet → Prop
  | start : Reached productions nonterminals symbols (startState productions nonterminals)
  | read {s : ItemSet} {symbol : Nat} (hs : Reached productions nonterminals symbols s)
      (hsymbol : symbol < symbols) :
      Reached productions nonterminals symbols (successor productions nonterminals s symbol)

/-- A symbol leads somewhere from a set of items only if one of them waits for it. -/
theorem exists_observed_of_successor {s : ItemSet} {symbol : Nat}
    (h : (successor productions nonterminals s symbol).isEmpty = false) :
    ∃ x ∈ s, x.observed? productions = some symbol := by
  obtain ⟨x, hx⟩ := exists_mem_of_isEmpty_eq_false h
  -- nothing opens a production unless an item has been moved to begin with
  refine closure_induction (P := fun _ => ∃ x ∈ s, x.observed? productions = some symbol) ?_ ?_ hx
  · intro y hy
    obtain ⟨i, hi, ho, -⟩ := (mem_moved symbol y).1 hy
    exact ⟨i, hi, ho⟩
  · intro _ _ _ hi _ _ _ _
    exact hi

/-! ## Where states come from -/

/-- The set is what reading a symbol leads to from a state of the list before position `i`. -/
def ComesFrom (productions : List Production) (nonterminals symbols : Nat) (states : List ItemSet)
    (i : Nat) (s : ItemSet) : Prop :=
  ∃ j < i, ∃ t, states[j]? = some t ∧
    ∃ symbol < symbols, s = successor productions nonterminals t symbol

/-- No state of the list is empty, and each but the first comes from one before it. -/
structure IsLinked (productions : List Production) (nonterminals symbols : Nat)
    (states : List ItemSet) : Prop where
  nonempty : ∀ s ∈ states, s.isEmpty = false
  origin : ∀ i s, states[i + 1]? = some s →
    ComesFrom productions nonterminals symbols states (i + 1) s

/-- A set still comes from where it did when the list grows. -/
theorem ComesFrom.mono {states states' : List ItemSet} (hgrows : states <+: states') {i : Nat}
    {s : ItemSet} (h : ComesFrom productions nonterminals symbols states i s) :
    ComesFrom productions nonterminals symbols states' i s := by
  obtain ⟨j, hj, t, ht, hsymbol⟩ := h
  exact ⟨j, hj, t, getElem?_of_prefix hgrows ht, hsymbol⟩

/-- Enlisting what a listed state leads to keeps the list linked. -/
theorem IsLinked.enlist {states : List ItemSet}
    (h : IsLinked productions nonterminals symbols states) {j : Nat} {t : ItemSet}
    (ht : states[j]? = some t) {symbol : Nat} (hsymbol : symbol < symbols) :
    IsLinked productions nonterminals symbols
      (enlist states (successor productions nonterminals t symbol)) := by
  constructor
  · intro s hs
    rcases mem_enlist.1 hs with hs | ⟨rfl, hne⟩
    · exact h.nonempty s hs
    · exact hne
  · unfold GuardedGrammar.enlist
    split
    · exact h.origin
    · have hgrows : states <+: states ++ [successor productions nonterminals t symbol] :=
        List.prefix_append _ _
      intro i s hs
      -- a state that was listed before comes from where it did
      rcases Nat.lt_or_ge (i + 1) states.length with hlt | hge
      · rw [List.getElem?_append_left hlt] at hs
        exact (h.origin i s hs).mono hgrows
      · -- the new state comes last, so `t` stands before it
        have hj : j < states.length := (List.getElem?_eq_some_iff.1 ht).1
        rw [List.getElem?_append_right hge] at hs
        have hs' : s = successor productions nonterminals t symbol :=
          List.mem_singleton.1 (List.mem_of_getElem? hs)
        exact ⟨j, by omega, t, getElem?_of_prefix hgrows ht, symbol, hsymbol, hs'⟩

/-- Exploring a listed state keeps the list linked. -/
theorem IsLinked.enlistSuccessors {states : List ItemSet}
    (h : IsLinked productions nonterminals symbols states) {j : Nat} {t : ItemSet}
    (ht : states[j]? = some t) :
    IsLinked productions nonterminals symbols
      (enlistSuccessors productions nonterminals symbols states t) := by
  unfold GuardedGrammar.enlistSuccessors
  have hrange : ∀ symbol ∈ List.range symbols, symbol < symbols := fun _ => List.mem_range.1
  generalize List.range symbols = l at hrange
  induction l generalizing states with
  | nil => exact h
  | cons symbol l ih =>
    obtain ⟨hsymbol, hl⟩ := List.forall_mem_cons.1 hrange
    have ht' := getElem?_of_prefix
      (prefix_enlist states (successor productions nonterminals t symbol)) ht
    exact ih (h.enlist ht hsymbol) ht' hl

/-- An exploration keeps a list linked. -/
theorem IsLinked.explore {states : List ItemSet}
    (h : IsLinked productions nonterminals symbols states) (fuel next : Nat) :
    IsLinked productions nonterminals symbols
      (explore productions nonterminals symbols fuel next states) := by
  induction fuel generalizing next states with
  | zero => exact h
  | succ fuel ih =>
    unfold GuardedGrammar.explore
    cases hs : states[next]? with
    | none => exact h
    | some s => exact ih (h.enlistSuccessors hs) (next + 1)

/-- The collection is linked. -/
theorem isLinked_collection (productions : List Production) (nonterminals symbols : Nat) :
    IsLinked productions nonterminals symbols (collection productions nonterminals symbols) := by
  have hstart : IsLinked productions nonterminals symbols
      [startState productions nonterminals] := by
    constructor
    · intro s hs
      obtain rfl := List.mem_singleton.1 hs
      exact isEmpty_eq_false_of_mem start_mem_startState
    · intro i s hs
      exact nomatch hs
  exact hstart.explore _ _

/-! ## The collection -/

/-- Every state of the collection can be reached: its place in the list says from where. -/
theorem reached_of_getElem? {i : Nat} {s : ItemSet}
    (hs : (collection productions nonterminals symbols)[i]? = some s) :
    Reached productions nonterminals symbols s := by
  induction i using Nat.strong_induction_on generalizing s with
  | _ i ih =>
    cases i with
    | zero =>
      rw [getElem?_zero_collection] at hs
      obtain rfl := Option.some.inj hs
      exact .start
    | succ i =>
      obtain ⟨j, hj, t, ht, symbol, hsymbol, rfl⟩ :=
        (isLinked_collection productions nonterminals symbols).origin i s hs
      exact (ih j hj ht).read hsymbol

/-- Whatever can be reached is in the collection, unless it is empty. -/
theorem mem_collection_of_reached (hne : productions ≠ []) {s : ItemSet}
    (hs : Reached productions nonterminals symbols s) (hempty : s.isEmpty = false) :
    s ∈ collection productions nonterminals symbols := by
  induction hs with
  | start => exact List.mem_of_getElem? (getElem?_zero_collection _ _ _)
  | read _ hsymbol ih =>
    -- the state before has an item that waits for the symbol, so it is not empty either
    obtain ⟨x, hx, ho⟩ := exists_observed_of_successor hempty
    have hmem := ih (isEmpty_eq_false_of_mem hx)
    exact successor_mem_collection hne hmem hsymbol hx ho

/-- A list holds the states of the automaton: the first of them first, then all others that can be
reached, each once and behind a state that leads to it; so whatever a state leads to has one place in
the list. -/
structure Enumerates (productions : List Production) (nonterminals symbols : Nat)
    (states : List ItemSet) : Prop where
  nodup : states.Nodup
  first : states[0]? = some (closure productions nonterminals {⟨startProduction, 0⟩})
  mem_iff : ∀ s, s ∈ states ↔ Reached productions nonterminals symbols s ∧ s.isEmpty = false
  origin : ∀ i s, states[i + 1]? = some s →
    ComesFrom productions nonterminals symbols states (i + 1) s
  place : ∀ s ∈ states, ∀ symbol, (successor productions nonterminals s symbol).isEmpty = false →
    ∃! i : Nat, states[i]? = some (successor productions nonterminals s symbol)

/-- The collection enumerates the states of the automaton. -/
theorem collection_enumerates (hne : productions ≠ [])
    (hsymbols : ∀ p ∈ productions, ∀ s ∈ p.rhs, s < symbols) (nonterminals : Nat) :
    Enumerates productions nonterminals symbols (collection productions nonterminals symbols) := by
  have hlinked := isLinked_collection productions nonterminals symbols
  have hnodup := nodup_collection hne nonterminals symbols
  refine ⟨hnodup, getElem?_zero_collection _ _ _, ?_, hlinked.origin, ?_⟩
  · intro s
    constructor
    · intro hs
      obtain ⟨i, hi⟩ := List.mem_iff_getElem?.1 hs
      exact ⟨reached_of_getElem? hi, hlinked.nonempty s hs⟩
    · rintro ⟨hs, hempty⟩
      exact mem_collection_of_reached hne hs hempty
  · intro s hs symbol hempty
    -- a symbol that some item waits for has a number below `symbols`
    obtain ⟨x, hx, ho⟩ := exists_observed_of_successor hempty
    obtain ⟨p, hp, hget⟩ := (x.observed?_eq_some_iff symbol).1 ho
    have hsymbol : symbol < symbols :=
      hsymbols p (List.mem_of_getElem? hp) symbol (List.mem_of_getElem? hget)
    have hmem := successor_mem_collection hne hs hsymbol hx ho
    obtain ⟨i, hi⟩ := List.mem_iff_getElem?.1 hmem
    refine ⟨i, hi, fun j hj => ?_⟩
    -- two places of one state are the same, since it is listed once
    obtain ⟨hilt, hi⟩ := List.getElem?_eq_some_iff.1 hi
    obtain ⟨hjlt, hj⟩ := List.getElem?_eq_some_iff.1 hj
    exact hnodup.getElem_inj_iff.1 (hj.trans hi.symm)

/-- A list of elements with a mark between them has five states. -/
theorem list_collection_enumerates :
    (collection [⟨0, [1], false⟩, ⟨1, [1, 3, 2], false⟩, ⟨1, [2], false⟩] 2 5).length = 5 ∧
      Enumerates [⟨0, [1], false⟩, ⟨1, [1, 3, 2], false⟩, ⟨1, [2], false⟩] 2 5
        (collection [⟨0, [1], false⟩, ⟨1, [1, 3, 2], false⟩, ⟨1, [2], false⟩] 2 5) :=
  ⟨by decide +kernel, collection_enumerates (by decide) (by decide) 2⟩

end GuardedGrammar
