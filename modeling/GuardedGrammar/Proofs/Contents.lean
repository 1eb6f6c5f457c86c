/-
  What the row of a state holds, exactly.

  The items of a state come in the order of their productions, so reductions are entered in that order,
  and the start production comes before all others, so a cell accepts before any reduction reaches it.
  With that, what each item does to a cell keeps it in line with the reductions that are *due*, those of
  productions that have been read to their end and whose left-hand side the terminal can follow
  (`HoldsDue.enterItem`).  Where the state lacks no other that it leads to, no item is refused
  (`exists_enterItem`), so the tables can be filled (`exists_tables`).

  Main statement: `declares_row`, when an action is in a cell (`Declares`).
-/
import GuardedGrammar.Proofs.Exploration
import GuardedGrammar.Proofs.Resolution
import GuardedGrammar.Proofs.Rows

namespace GuardedGrammar

theorem SortedSet.nodup_toList {α : Type} [Ordered α] (s : SortedSet α) : s.toList.Nodup :=
  s.sorted.imp fun h he => by
    rw [he, Ordered.irrefl] at h
    exact nomatch h

namespace Automaton

variable (a : Automaton)

/-! ## What items ask for -/

/-- The state waits for the symbol. -/
def Awaits (items : ItemSet) (symbol : Nat) : Prop :=
  ∃ x ∈ items, x.observed? a.productions = some symbol

/-- One of the items has its dot behind the right-hand side of the production. -/
def Completes (l : List Item) (p : Nat) : Prop :=
  ∃ x ∈ l, x.production = p ∧ x.observed? a.productions = none

/-- The reduction of a production other than the start production is due when the terminal comes. -/
def IsDue (l : List Item) (t p : Nat) : Prop :=
  p ≠ startProduction ∧ a.Completes l p ∧ t ∈ FollowSets.of a.follow (a.lhsOf p)

/-- The FOLLOW sets have terminals only. -/
def FollowsInRange : Prop :=
  ∀ s, ∀ t ∈ FollowSets.of a.follow s, a.nonterminals ≤ t ∧ t < a.names.size

/-- In the cells of all terminals, the reductions are those that prevail among the ones that the items
make due. -/
def HoldsDue (l : List Item) (row : Row) : Prop :=
  ∀ t, a.nonterminals ≤ t → t < a.names.size →
    (row.cell (a.column t)).Holds a.productions (a.IsDue l t)

variable {a} {items : ItemSet} {row row' : Row} {l : List Item} {x : Item} {t p : Nat}

/-- With one item more, its production is completed if the item waits for nothing. -/
theorem completes_append_singleton :
    a.Completes (l ++ [x]) p ↔
      a.Completes l p ∨ x.production = p ∧ x.observed? a.productions = none := by
  unfold Completes
  simp only [List.mem_append, List.mem_singleton, or_and_right, exists_or, exists_eq_left]

/-- With one item more, its production is due as well, if it has been read to its end. -/
theorem isDue_append_singleton :
    a.IsDue (l ++ [x]) t p ↔ a.IsDue l t p ∨ (p ≠ startProduction ∧
      (x.production = p ∧ x.observed? a.productions = none) ∧
      t ∈ FollowSets.of a.follow (a.lhsOf p)) := by
  unfold IsDue
  rw [completes_append_singleton, or_and_right, and_or_left]

/-- An item that waits for a symbol makes nothing due. -/
theorem isDue_append_of_observed {s : Nat} (ho : x.observed? a.productions = some s) :
    a.IsDue (l ++ [x]) t p ↔ a.IsDue l t p := by
  rw [isDue_append_singleton]
  exact or_iff_left fun h => nomatch ho.symm.trans h.2.1.2

/-- Nor does the start production. -/
theorem isDue_append_of_start (hx : x.production = startProduction) :
    a.IsDue (l ++ [x]) t p ↔ a.IsDue l t p := by
  rw [isDue_append_singleton]
  exact or_iff_left fun h => h.1 (h.2.1.1.symm.trans hx)

/-- Another item that has been read to its end makes its production due for the terminals that can
follow. -/
theorem isDue_append_of_complete (hx : x.production ≠ startProduction)
    (ho : x.observed? a.productions = none) :
    a.IsDue (l ++ [x]) t p ↔
      a.IsDue l t p ∨ p = x.production ∧ t ∈ FollowSets.of a.follow (a.lhsOf x.production) := by
  rw [isDue_append_singleton]
  refine or_congr_right ⟨?_, ?_⟩
  · rintro ⟨-, ⟨rfl, -⟩, ht⟩
    exact ⟨rfl, ht⟩
  · rintro ⟨rfl, ht⟩
    exact ⟨hx, ⟨rfl, ho⟩, ht⟩

/-! ## Entering one item

By what the item is: it waits for a terminal, waits for a nonterminal, has been read to its end, or
is the start rule at its end. Each of them changes at most the part of the row that is its own. -/

/-- Of different columns that are changed one after the other, each is changed once. -/
theorem cell_foldl_update (f : Cell → Cell) {columns : List Nat} (hnodup : columns.Nodup) {k : Nat}
    (hk : k < row.actions.length) :
    (columns.foldl (fun row k => row.update k f) row).cell k =
      if k ∈ columns then f (row.cell k) else row.cell k := by
  induction columns generalizing row with
  | nil => rw [if_neg List.not_mem_nil]; rfl
  | cons k' columns ih =>
    obtain ⟨hk', hcolumns⟩ := List.nodup_cons.1 hnodup
    have hwidth : k < (row.update k' f).actions.length := by
      rwa [Row.update, List.length_modify]
    rw [List.foldl_cons, ih hcolumns hwidth]
    -- the column is the first one and does not come again, or it is left to the others
    by_cases he : k' = k
    · subst he
      rw [if_neg hk', if_pos List.mem_cons_self, Row.cell_update_of_lt f hk]
    · rw [Row.cell_update_of_ne f he]
      simp only [List.mem_cons, Ne.symm he, false_or]

/-- The cell of a terminal after a reduction has been entered wherever it is due. -/
theorem cell_enterReductions (hfollow : a.FollowsInRange) (hwidth : row.actions.length = a.terminals)
    (s p : Nat) (hge : a.nonterminals ≤ t) (hlt : t < a.names.size) :
    ((((FollowSets.of a.follow s).toList.map a.column).foldl
      (fun row k => row.update k (·.receive a.productions p)) row).cell (a.column t)) =
      if t ∈ FollowSets.of a.follow s then (row.cell (a.column t)).receive a.productions p
      else row.cell (a.column t) := by
  -- different terminals have different columns
  have hnodup : ((FollowSets.of a.follow s).toList.map a.column).Nodup :=
    (SortedSet.nodup_toList _).map_on fun t ht t' ht' h =>
      column_inj (hfollow s t ht).1 (hfollow s t' ht').1 h
  have hmem : a.column t ∈ (FollowSets.of a.follow s).toList.map a.column ↔
      t ∈ FollowSets.of a.follow s := by
    refine ⟨fun h => ?_, fun h => List.mem_map.2 ⟨t, h, rfl⟩⟩
    obtain ⟨t', ht', he⟩ := List.mem_map.1 h
    obtain rfl := column_inj (hfollow s t' ht').1 hge he
    exact ht'
  rw [cell_foldl_update _ hnodup (hwidth ▸ column_lt_terminals hge hlt)]
  exact if_congr hmem rfl rfl

/-- What is due comes from items that have been entered, and not from the start production. -/
theorem IsDue.le_of_last (h : a.IsDue l t p) (hlast : ∀ y ∈ l, y.production ≤ x.production) :
    p ≠ startProduction ∧ p ≤ x.production := by
  obtain ⟨hne, ⟨y, hy, rfl, -⟩, -⟩ := h
  exact ⟨hne, hlast y hy⟩

/-- Before the start production is entered nothing is due, since it comes first. -/
theorem HoldsDue.enterAcceptance (h : a.HoldsDue l row)
    (hlast : ∀ y ∈ l, y.production ≤ x.production) (hp : x.production = startProduction) :
    a.HoldsDue (l ++ [x]) (a.enterAcceptance row) := by
  intro t hge hlt
  have ht := h t hge hlt
  have hnone : ∀ p, ¬a.IsDue l t p := by
    intro p hdue
    obtain ⟨hne, hle⟩ := hdue.le_of_last hlast
    exact hne (Nat.le_zero.1 (hle.trans_eq hp))
  refine Cell.Holds.congr ?_ fun p => (isDue_append_of_start hp).symm
  rcases row.cell_update_cases (a.column a.endMarker) (a.column t) (·.enter .accept) with
    he | ⟨-, he⟩
  · exact he ▸ ht
  · exact he ▸ ht.accept hnone

/-- A complete item enters its reduction wherever it is due, and changes nothing elsewhere. -/
theorem HoldsDue.enterReductions (h : a.HoldsDue l row) (hfollow : a.FollowsInRange)
    (hwidth : row.actions.length = a.terminals) (hlast : ∀ y ∈ l, y.production ≤ x.production)
    (hp : x.production ≠ startProduction) (ho : x.observed? a.productions = none) :
    a.HoldsDue (l ++ [x])
      (((FollowSets.of a.follow (a.lhsOf x.production)).toList.map a.column).foldl
        (fun row k => row.update k (·.receive a.productions x.production)) row) := by
  intro t hge hlt
  have ht := h t hge hlt
  rw [cell_enterReductions hfollow hwidth _ _ hge hlt]
  split
  · rename_i hmem
    refine (ht.receive fun q hq => (hq.le_of_last hlast).2).congr fun q => ?_
    rw [isDue_append_of_complete hp ho, and_iff_left hmem]
  · rename_i hmem
    refine ht.congr fun q => ?_
    rw [isDue_append_of_complete hp ho, or_iff_left fun hq => hmem hq.2]

/-- A shift that is entered leaves the reductions of a cell alone. -/
theorem HoldsDue.enterShift {s : Nat} (h : a.HoldsDue l row)
    (ho : x.observed? a.productions = some s) (j : Nat) :
    a.HoldsDue (l ++ [x]) (a.enterShift s j row) := by
  intro t hge hlt
  have ht := h t hge hlt
  refine Cell.Holds.congr ?_ fun p => (isDue_append_of_observed ho).symm
  rcases row.cell_update_cases (a.column s) (a.column t) (·.enter (.shift j)) with he | ⟨-, he⟩
  · exact he ▸ ht
  · exact he ▸ ht.shift j

/-- Where to go with a nonterminal does not concern the cells. -/
theorem HoldsDue.enterGoto {state s j : Nat} (h : a.HoldsDue l row)
    (ho : x.observed? a.productions = some s) (hrow : a.enterGoto state s j row = .ok row') :
    a.HoldsDue (l ++ [x]) row' := by
  intro t hge hlt
  rw [(cell_of_enterGoto hrow).2]
  exact (h t hge hlt).congr fun p => (isDue_append_of_observed ho).symm

/-- Entering the next item keeps a row in line with what is due. -/
theorem HoldsDue.enterItem {state : Nat} (h : a.HoldsDue l row) (hfollow : a.FollowsInRange)
    (hwidth : row.actions.length = a.terminals) (hlast : ∀ y ∈ l, y.production ≤ x.production)
    (hrow : (a.enterItem state items row x).result = .ok row') : a.HoldsDue (l ++ [x]) row' := by
  unfold Automaton.enterItem at hrow
  split at hrow
  · rename_i ho
    split at hrow
    · rename_i hp
      obtain rfl := Except.ok.inj hrow
      exact h.enterAcceptance hlast hp
    · rename_i hp
      rw [result_enterReductions] at hrow
      obtain rfl := Except.ok.inj hrow
      exact h.enterReductions hfollow hwidth hlast hp ho
  · rename_i s ho
    split at hrow
    · exact nomatch hrow
    · rename_i j _
      split at hrow
      · exact h.enterGoto ho hrow
      · obtain rfl := Except.ok.inj hrow
        exact h.enterShift ho j

/-! ## Entering all items -/

/-- By induction on the items that are still to be entered; they come in the order of their
productions, so what is due already has been listed before. -/
theorem HoldsDue.enterItems {state : Nat} {seen : List Item} (h : a.HoldsDue seen row)
    (hfollow : a.FollowsInRange) (hwidth : row.actions.length = a.terminals)
    (hl : ∀ x ∈ l, x ∈ items) (hsorted : (seen ++ l).Pairwise fun x y => x.production ≤ y.production)
    (hrow : (a.enterItems state items l row).result = .ok row') :
    a.HoldsDue (seen ++ l) row' := by
  induction l generalizing row seen with
  | nil =>
    obtain rfl : row = row' := Except.ok.inj hrow
    rwa [List.append_nil]
  | cons x l ih =>
    obtain ⟨mid, hmid, hrest⟩ := (Traced.result_bind_eq_ok_iff _ _ _).1 hrow
    obtain ⟨hx, hl⟩ := List.forall_mem_cons.1 hl
    have hlast : ∀ y ∈ seen, y.production ≤ x.production := fun y hy =>
      (List.pairwise_append.1 hsorted).2.2 y hy x List.mem_cons_self
    rw [List.append_cons] at hsorted ⊢
    exact ih (h.enterItem hfollow hwidth hlast hmid)
      ((entered_of_enterItem hx hmid).grows.width.trans hwidth) hl hsorted hrest

/-- The row of a state holds the reductions that prevail among those that are due. -/
theorem holdsDue_row {state : Nat} (hfollow : a.FollowsInRange)
    (hrow : (a.row state items).result = .ok row) : a.HoldsDue items.toList row := by
  have hblank : a.HoldsDue [] (.blank a.terminals a.nonterminals) := by
    intro t hge hlt
    have hnone : ∀ p, False ↔ a.IsDue [] t p := fun p =>
      ⟨False.elim, fun ⟨_, ⟨_, hx, _⟩, _⟩ => absurd hx List.not_mem_nil⟩
    have hcell : (Row.blank a.terminals a.nonterminals).cell (a.column t) = [] := by
      rw [Row.cell, Row.blank, List.getElem?_replicate]
      split <;> rfl
    exact hcell ▸ (Cell.holds_nil _).congr hnone
  have hsorted : items.toList.Pairwise fun x y => x.production ≤ y.production :=
    items.sorted.imp fun {x y} h => by
      have := (Item.before_eq_true_iff x y).1 h
      omega
  exact hblank.enterItems hfollow List.length_replicate (fun _ h => h) hsorted hrow

/-! ## Cells and places to go -/

theorem length_actions_row {state : Nat} (hrow : (a.row state items).result = .ok row) :
    row.actions.length = a.terminals :=
  (enterItems_spec (fun _ h => h) hrow).2.1.width.trans List.length_replicate

/-- The cell of a terminal has what the items of the state declare. -/
structure Declares (a : Automaton) (items : ItemSet) (t : Nat) (c : Cell) : Prop where
  holds : c.Holds a.productions (a.IsDue items.toList t)
  accept : .accept ∈ c ↔ t = a.endMarker ∧ a.Completes items.toList startProduction
  shift : ∀ j : Nat, .shift j ∈ c ↔ a.Awaits items t ∧ a.target? items t = some j

/-- The cell of a terminal agrees with the items in all three kinds of actions. -/
theorem declares_row {state : Nat} (hfollow : a.FollowsInRange)
    (hrow : (a.row state items).result = .ok row) (hge : a.nonterminals ≤ t)
    (hlt : t < a.names.size) : a.Declares items t (row.cell (a.column t)) := by
  obtain ⟨hjust, hheeds⟩ := row_spec hrow
  refine ⟨holdsDue_row hfollow hrow t hge hlt, ⟨fun h => ?_, ?_⟩, fun j => ⟨fun h => ?_, ?_⟩⟩
  · -- what is in the cell has been justified by an item
    obtain ⟨hcol, x, hx, hp, ho⟩ := hjust.actions _ _ h
    have hend : a.nonterminals ≤ a.endMarker := by
      unfold endMarker
      omega
    exact ⟨column_inj hge hend hcol, x, hx, hp, ho⟩
  · -- what an item asks for has been heeded
    rintro ⟨rfl, x, hx, hp, ho⟩
    exact (hheeds x hx).accept ho hp (Nat.lt_of_le_of_lt hge hlt)
  · obtain ⟨x, hx, s, ho, hs, hcol, hj⟩ := hjust.actions _ _ h
    obtain rfl := column_inj hs hge hcol
    exact ⟨⟨x, hx, ho⟩, hj⟩
  · rintro ⟨⟨x, hx, ho⟩, hj⟩
    obtain ⟨j', hj', hmem⟩ := (hheeds x hx).shift t ho hge hlt
    obtain rfl := Option.some.inj (hj.symm.trans hj')
    exact hmem

/-- Where to go with a nonterminal is where the items that wait for it lead. -/
theorem gotos_row {state n : Nat} (hrow : (a.row state items).result = .ok row)
    (hn : n < a.nonterminals) (j : Nat) :
    row.gotos[n]? = some (some j) ↔ a.Awaits items n ∧ a.target? items n = some j := by
  obtain ⟨hjust, hheeds⟩ := row_spec hrow
  constructor
  · intro h
    obtain ⟨x, hx, ho, hj⟩ := hjust.gotos n j h
    exact ⟨⟨x, hx, ho⟩, hj⟩
  · rintro ⟨⟨x, hx, ho⟩, hj⟩
    obtain ⟨j', hj', hget⟩ := (hheeds x hx).goto n ho hn
    obtain rfl := Option.some.inj (hj.symm.trans hj')
    exact hget

/-! ## No item is refused -/

variable (a) in
/-- There is a state for every symbol that the state waits for. -/
def LeadsOn (items : ItemSet) : Prop := ∀ s, a.Awaits items s → ∃ j, a.target? items s = some j

/-- A nonterminal leads to one state only, so entering it again does not fail. -/
theorem exists_enterGoto {state s j : Nat} (hjust : a.RowJustified items row)
    (hj : a.target? items s = some j) : ∃ row', a.enterGoto state s j row = .ok row' := by
  unfold enterGoto
  split
  · exact ⟨_, rfl⟩
  · rename_i first hfirst
    obtain ⟨o, ho, hfirst⟩ := Option.bind_eq_some_iff.1 hfirst
    obtain rfl : o = some first := hfirst
    -- what has been entered is where the symbol leads
    obtain ⟨-, -, -, htarget⟩ := hjust.gotos s first ho
    rw [if_pos (Option.some.inj (htarget.symm.trans hj))]
    exact ⟨_, rfl⟩

/-- An item is entered if the symbol that it waits for leads to a state. -/
theorem exists_enterItem {state : Nat} (hjust : a.RowJustified items row) (hlead : a.LeadsOn items)
    (hx : x ∈ items) : ∃ row', (a.enterItem state items row x).result = .ok row' := by
  unfold enterItem
  split
  · split
    · exact ⟨_, rfl⟩
    · exact ⟨_, result_enterReductions _ _ _⟩
  · rename_i s ho
    obtain ⟨j, hj⟩ := hlead s ⟨x, hx, ho⟩
    rw [hj]
    dsimp only
    split
    · exact exists_enterGoto hjust hj
    · exact ⟨_, rfl⟩

/-- So are all items, one after the other. -/
theorem exists_enterItems {state : Nat} (hjust : a.RowJustified items row)
    (hlead : a.LeadsOn items) (hl : ∀ x ∈ l, x ∈ items) :
    ∃ row', (a.enterItems state items l row).result = .ok row' := by
  induction l generalizing row with
  | nil => exact ⟨row, rfl⟩
  | cons x l ih =>
    obtain ⟨hx, hl⟩ := List.forall_mem_cons.1 hl
    obtain ⟨mid, hmid⟩ := exists_enterItem hjust hlead hx
    obtain ⟨row', hrow'⟩ := ih ((entered_of_enterItem hx hmid).justified hjust) hl
    exact ⟨row', (Traced.result_bind_eq_ok_iff _ _ _).2 ⟨mid, hmid, hrow'⟩⟩

/-- So are the rows of all states. -/
theorem exists_rowsFrom {state : Nat} {states : List ItemSet}
    (hlead : ∀ items ∈ states, a.LeadsOn items) :
    ∃ rows, (a.rowsFrom state states).result = .ok rows := by
  induction states generalizing state with
  | nil => exact ⟨[], rfl⟩
  | cons items states ih =>
    obtain ⟨hitems, hstates⟩ := List.forall_mem_cons.1 hlead
    obtain ⟨row, hrow⟩ : ∃ row, (a.row state items).result = .ok row :=
      exists_enterItems (rowJustified_blank items) hitems fun _ h => h
    obtain ⟨rows, hrows⟩ : ∃ rows, (a.rowsFrom (state + 1) states).result = .ok rows := ih hstates
    refine ⟨row :: rows, (Traced.result_bind_eq_ok_iff _ _ _).2 ⟨row, hrow, ?_⟩⟩
    exact (Traced.result_bind_eq_ok_iff _ _ _).2 ⟨rows, hrows, rfl⟩

/-- The tables of an automaton can be filled if it has all states that others lead to. -/
theorem exists_tables (hlead : ∀ items ∈ a.states, a.LeadsOn items) :
    ∃ tables, a.tables.result = .ok tables := exists_rowsFrom hlead

end Automaton

end GuardedGrammar
