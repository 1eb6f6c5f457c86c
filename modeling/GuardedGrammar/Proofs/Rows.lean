/-
  What the row of a state says.

  A row is filled item by item, and each item enters actions or a place to go to.  Two facts about a
  single item carry over to the whole row.  An item only enters what the state justifies, so all
  that is in a row is justified by an item of the state (`Justified`).  And an item enters what it
  asks for (`Heeds`), which nothing that is entered later takes away (`Row.Grows`), so in the end
  every item of the state has been given what it asks for.

  Main statement: `row_spec`, both halves for the row of a state.
-/
import GuardedGrammar.Proofs.Cells
import GuardedGrammar.Table.Construction

namespace GuardedGrammar

/-! ## Cells of a row -/

/-- The cell of a column; there is nothing beyond the last. -/
def Row.cell (row : Row) (column : Nat) : Cell := (row.actions[column]?).getD []

/-- The row with one cell changed. -/
def Row.update (row : Row) (column : Nat) (f : Cell → Cell) : Row :=
  { row with actions := row.actions.modify column f }

namespace Row

/-- An update changes its cell, if there is one. -/
theorem cell_update_of_lt {row : Row} {column : Nat} (f : Cell → Cell)
    (h : column < row.actions.length) : (row.update column f).cell column = f (row.cell column) := by
  unfold cell update
  rw [List.getElem?_modify_eq, List.getElem?_eq_getElem h]
  rfl

theorem cell_update_of_ne {row : Row} {column other : Nat} (f : Cell → Cell) (h : column ≠ other) :
    (row.update column f).cell other = row.cell other := by
  unfold cell update
  rw [List.getElem?_modify_ne _ _ h]

/-- A changed row has its old cells, and in range the changed one. -/
theorem cell_update_cases (row : Row) (column other : Nat) (f : Cell → Cell) :
    (row.update column f).cell other = row.cell other ∨
      column = other ∧ (row.update column f).cell other = f (row.cell other) := by
  by_cases hne : column = other
  · subst hne
    by_cases hlt : column < row.actions.length
    · exact .inr ⟨rfl, cell_update_of_lt f hlt⟩
    · left
      unfold cell update
      rw [List.getElem?_eq_none (by simpa using hlt), List.getElem?_eq_none (by simpa using hlt)]
  · exact .inl (cell_update_of_ne f hne)

/-! ## Rows that grow -/

/-- Nothing that a row says is taken away by what is entered later. -/
structure Grows (productions : List Production) (row row' : Row) : Prop where
  width : row'.actions.length = row.actions.length
  breadth : row'.gotos.length = row.gotos.length
  /-- Only reductions without a guard can give way. -/
  keeps : ∀ k a, a ∈ row.cell k → a.isUnguarded productions = false → a ∈ row'.cell k
  covers : ∀ k p, Cell.Covers productions (row.cell k) p → Cell.Covers productions (row'.cell k) p
  gotos : ∀ n j : Nat, row.gotos[n]? = some (some j) → row'.gotos[n]? = some (some j)

variable {productions : List Production} {row row' row'' : Row}

theorem Grows.refl (productions : List Production) (row : Row) : Grows productions row row :=
  ⟨rfl, rfl, fun _ _ h _ => h, fun _ _ h => h, fun _ _ h => h⟩

/-- Growing is transitive. -/
theorem Grows.trans (h : Grows productions row row') (h' : Grows productions row' row'') :
    Grows productions row row'' where
  width := h'.width.trans h.width
  breadth := h'.breadth.trans h.breadth
  keeps k a ha hun := h'.keeps k a (h.keeps k a ha hun) hun
  covers k p hp := h'.covers k p (h.covers k p hp)
  gotos n j hj := h'.gotos n j (h.gotos n j hj)

/-- A change that keeps what a cell says makes the row grow. -/
theorem grows_update (row : Row) (column : Nat) {f : Cell → Cell}
    (keeps : ∀ c a, a ∈ c → a.isUnguarded productions = false → a ∈ f c)
    (covers : ∀ c p, Cell.Covers productions c p → Cell.Covers productions (f c) p) :
    Grows productions row (row.update column f) where
  width := List.length_modify ..
  breadth := rfl
  keeps k a ha hun := by
    -- the cell is another one, or the one that is updated
    rcases row.cell_update_cases column k f with he | ⟨-, he⟩
    · rwa [he]
    · rw [he]
      exact keeps _ a ha hun
  covers k p hp := by
    rcases row.cell_update_cases column k f with he | ⟨-, he⟩
    · rwa [he]
    · rw [he]
      exact covers _ p hp
  gotos _ _ h := h

/-! So a row grows by an action, by a reduction, and by a reduction for several terminals. -/

theorem grows_update_enter (row : Row) (column : Nat) (a : Action) :
    Grows productions row (row.update column (·.enter a)) :=
  row.grows_update column (fun _ _ h _ => Cell.mem_enter.2 (.inl h))
    fun _ _ h => h.mono fun _ hb => Cell.mem_enter.2 (.inl hb)

theorem grows_update_receive (row : Row) (column p : Nat) :
    Grows productions row (row.update column (·.receive productions p)) :=
  row.grows_update column (fun _ _ h hun => Cell.mem_receive_of_mem h hun)
    fun _ _ h => h.receive p

theorem grows_foldl_update_receive (columns : List Nat) (row : Row) (p : Nat) :
    Grows productions row
      (columns.foldl (fun row k => row.update k (·.receive productions p)) row) := by
  induction columns generalizing row with
  | nil => exact .refl _ _
  | cons k columns ih => exact (row.grows_update_receive k p).trans (ih _)

end Row

namespace Automaton

variable (a : Automaton) (items : ItemSet)

/-! ## What a state justifies, and what an item asks for -/

/-- The action in a column is what some item of the state says. -/
def Justified (k : Nat) : Action → Prop
  | .shift j => ∃ i ∈ items, ∃ s, i.observed? a.productions = some s ∧ a.nonterminals ≤ s ∧
      a.column s = k ∧ a.target? items s = some j
  | .reduce p => p ≠ startProduction ∧
      (∃ i ∈ items, i.production = p ∧ i.observed? a.productions = none) ∧
      ∃ t ∈ FollowSets.of a.follow (a.lhsOf p), a.column t = k
  | .accept => k = a.column a.endMarker ∧
      ∃ i ∈ items, i.production = startProduction ∧ i.observed? a.productions = none

/-- All that a row says is justified. -/
structure RowJustified (row : Row) : Prop where
  actions : ∀ k act, act ∈ row.cell k → a.Justified items k act
  gotos : ∀ n j : Nat, row.gotos[n]? = some (some j) →
    ∃ i ∈ items, i.observed? a.productions = some n ∧ a.target? items n = some j

/-- The row has what an item asks for: where its observed symbol leads, or that it is reduced. -/
structure Heeds (row : Row) (item : Item) : Prop where
  shift : ∀ s, item.observed? a.productions = some s → a.nonterminals ≤ s → s < a.names.size →
    ∃ j, a.target? items s = some j ∧ .shift j ∈ row.cell (a.column s)
  goto : ∀ s, item.observed? a.productions = some s → s < a.nonterminals →
    ∃ j, a.target? items s = some j ∧ row.gotos[s]? = some (some j)
  accept : item.observed? a.productions = none → item.production = startProduction →
    a.nonterminals < a.names.size → .accept ∈ row.cell (a.column a.endMarker)
  reduce : item.observed? a.productions = none → item.production ≠ startProduction →
    ∀ t ∈ FollowSets.of a.follow (a.lhsOf item.production), a.nonterminals ≤ t → t < a.names.size →
      Cell.Covers a.productions (row.cell (a.column t)) item.production

variable {a items} {row row' : Row} {item : Item}

/-- What is heeded in a row is heeded in a longer one. -/
theorem Heeds.grows (h : a.Heeds items row item) (hg : row.Grows a.productions row') :
    a.Heeds items row' item where
  shift s hs hge hlt := by
    obtain ⟨j, hj, hmem⟩ := h.shift s hs hge hlt
    exact ⟨j, hj, hg.keeps _ _ hmem rfl⟩
  goto s hs hlt := by
    obtain ⟨j, hj, hget⟩ := h.goto s hs hlt
    exact ⟨j, hj, hg.gotos _ _ hget⟩
  accept hs hp hlt := hg.keeps _ _ (h.accept hs hp hlt) rfl
  reduce hs hp t ht hge hlt := hg.covers _ _ (h.reduce hs hp t ht hge hlt)

/-- Of an item that has been read, the row has to have its reduction, or acceptance. -/
theorem heeds_of_complete (ho : item.observed? a.productions = none)
    (accept : item.production = startProduction → a.nonterminals < a.names.size →
      .accept ∈ row.cell (a.column a.endMarker))
    (reduce : item.production ≠ startProduction →
      ∀ t ∈ FollowSets.of a.follow (a.lhsOf item.production), a.nonterminals ≤ t →
        t < a.names.size → Cell.Covers a.productions (row.cell (a.column t)) item.production) :
    a.Heeds items row item where
  shift _ hs := nomatch ho.symm.trans hs
  goto _ hs := nomatch ho.symm.trans hs
  accept _ := accept
  reduce _ := reduce

/-- Of an item that waits for a symbol, the row has to have where that leads. -/
theorem heeds_of_observed {s : Nat} (ho : item.observed? a.productions = some s)
    (shift : a.nonterminals ≤ s → s < a.names.size →
      ∃ j, a.target? items s = some j ∧ .shift j ∈ row.cell (a.column s))
    (goto : s < a.nonterminals →
      ∃ j, a.target? items s = some j ∧ row.gotos[s]? = some (some j)) :
    a.Heeds items row item where
  shift s' hs' := by
    obtain rfl := Option.some.inj (ho.symm.trans hs')
    exact shift
  goto s' hs' := by
    obtain rfl := Option.some.inj (ho.symm.trans hs')
    exact goto
  accept hs := nomatch ho.symm.trans hs
  reduce hs := nomatch ho.symm.trans hs

/-! ## Entering one item -/

theorem column_lt_terminals {t : Nat} (hge : a.nonterminals ≤ t) (hlt : t < a.names.size) :
    a.column t < a.terminals := by
  unfold column terminals
  omega

/-- Different terminals have different columns. -/
theorem column_inj {s t : Nat} (hs : a.nonterminals ≤ s) (ht : a.nonterminals ≤ t)
    (h : a.column s = a.column t) : s = t := by
  unfold column at h
  omega

/-- A reduction is entered for one terminal after the other, and this does not fail. -/
theorem result_enterReductions (p : Nat) (ts : List Nat) (row : Row) :
    (a.enterReductions p ts row).result =
      .ok ((ts.map a.column).foldl (fun row k => row.update k (·.receive a.productions p)) row) := by
  induction ts generalizing row with
  | nil => rfl
  | cons t ts ih => exact ih (a.enterReduction p row t)

/-- A justified row stays justified when a cell is changed by a justified action. -/
theorem RowJustified.update (h : a.RowJustified items row) {k : Nat} {act : Action} {f : Cell → Cell}
    (hf : ∀ c b, b ∈ f c → b ∈ c ∨ b = act) (hact : a.Justified items k act) :
    a.RowJustified items (row.update k f) where
  actions k' b hb := by
    rcases row.cell_update_cases k k' f with he | ⟨rfl, he⟩
    · rw [he] at hb
      exact h.actions k' b hb
    · rw [he] at hb
      rcases hf _ b hb with hb | rfl
      · exact h.actions k b hb
      · exact hact
  gotos := h.gotos

/-- A row is still justified when a reduction has been entered that is due for its terminals. -/
theorem RowJustified.foldl_receive {p : Nat} (columns : List Nat)
    (hp : ∀ k ∈ columns, a.Justified items k (.reduce p)) (h : a.RowJustified items row) :
    a.RowJustified items
      (columns.foldl (fun row k => row.update k (·.receive a.productions p)) row) := by
  induction columns generalizing row with
  | nil => exact h
  | cons k columns ih =>
    refine ih (fun k' hk' => hp k' (List.mem_cons_of_mem k hk')) ?_
    exact h.update (fun _ _ hb => Cell.mem_of_mem_receive hb) (hp k List.mem_cons_self)

/-- Of the columns that a reduction is entered in, those in range cover it. -/
theorem covers_foldl_receive {p k : Nat} {columns : List Nat} (hk : k ∈ columns)
    (hlt : k < row.actions.length) :
    Cell.Covers a.productions
      ((columns.foldl (fun row k => row.update k (·.receive a.productions p)) row).cell k) p := by
  induction columns generalizing row with
  | nil => exact absurd hk List.not_mem_nil
  | cons k' columns ih =>
    by_cases he : k' = k
    -- entered here, and not taken away in the columns that are left
    · subst he
      refine (Row.grows_foldl_update_receive columns _ p).covers k' p ?_
      rw [Row.cell_update_of_lt _ hlt]
      exact Cell.covers_receive_self _ _ _
    · refine ih ((List.mem_cons.1 hk).resolve_left (Ne.symm he)) ?_
      have hgrows : row.Grows a.productions (row.update k' (·.receive a.productions p)) :=
        row.grows_update_receive k' p
      rw [hgrows.width]
      exact hlt

/-- What entering an item comes to: the row stays justified and grows, and says what the item asks
    for. -/
structure Entered (a : Automaton) (items : ItemSet) (row row' : Row) (item : Item) : Prop where
  justified : a.RowJustified items row → a.RowJustified items row'
  grows : row.Grows a.productions row'
  heeds : row.actions.length = a.terminals → row.gotos.length = a.nonterminals →
    a.Heeds items row' item

/-! What it is to enter an item, for each of the things that an item can ask for: that the input is
accepted, that its production is reduced, or that a terminal is shifted. -/

theorem entered_acceptance (hitem : item ∈ items) (ho : item.observed? a.productions = none)
    (hp : item.production = startProduction) :
    Entered a items row (a.enterAcceptance row) item where
  justified h := h.update (fun _ _ hb => Cell.mem_enter.1 hb) ⟨rfl, item, hitem, hp, ho⟩
  grows := row.grows_update_enter _ _
  heeds hwidth _ := by
    refine heeds_of_complete ho (fun _ hlt => ?_) fun hne => absurd hp hne
    have hcol : a.column a.endMarker < row.actions.length := by
      rw [hwidth]
      unfold column endMarker terminals
      omega
    show _ ∈ (row.update _ _).cell _
    rw [Row.cell_update_of_lt _ hcol]
    exact Cell.mem_enter.2 (.inr rfl)

theorem entered_reductions (hitem : item ∈ items) (ho : item.observed? a.productions = none)
    (hp : item.production ≠ startProduction) :
    Entered a items row
      (((FollowSets.of a.follow (a.lhsOf item.production)).toList.map a.column).foldl
        (fun row k => row.update k (·.receive a.productions item.production)) row) item where
  justified := by
    refine RowJustified.foldl_receive _ fun k hk => ?_
    obtain ⟨t, ht, rfl⟩ := List.mem_map.1 hk
    exact ⟨hp, ⟨item, hitem, rfl, ho⟩, t, ht, rfl⟩
  grows := Row.grows_foldl_update_receive _ _ _
  heeds hwidth _ := by
    refine heeds_of_complete ho (fun h => absurd h hp) fun _ t ht hge hlt => ?_
    refine covers_foldl_receive (List.mem_map.2 ⟨t, ht, rfl⟩) ?_
    rw [hwidth]
    exact column_lt_terminals hge hlt

theorem entered_shift {s j : Nat} (hitem : item ∈ items)
    (ho : item.observed? a.productions = some s) (hge : a.nonterminals ≤ s)
    (hj : a.target? items s = some j) : Entered a items row (a.enterShift s j row) item where
  justified h := h.update (fun _ _ hb => Cell.mem_enter.1 hb) ⟨item, hitem, s, ho, hge, rfl, hj⟩
  grows := row.grows_update_enter _ _
  heeds hwidth _ := by
    refine heeds_of_observed ho (fun _ hlt => ⟨j, hj, ?_⟩) fun hlt => absurd hlt (Nat.not_lt.2 hge)
    have hcol : a.column s < row.actions.length := by
      rw [hwidth]
      exact column_lt_terminals hge hlt
    show _ ∈ (row.update _ _).cell _
    rw [Row.cell_update_of_lt _ hcol]
    exact Cell.mem_enter.2 (.inr rfl)

/-- A place to go to is entered where there is none yet; otherwise it has to be the same. -/
theorem enterGoto_cases {state s j : Nat} (h : a.enterGoto state s j row = .ok row') :
    (row' = { row with gotos := row.gotos.set s (some j) } ∧
        ∀ j', row.gotos[s]? ≠ some (some j')) ∨
      row' = row ∧ row.gotos[s]? = some (some j) := by
  unfold enterGoto at h
  split at h
  · -- nothing has been entered there before
    rename_i hnone
    refine .inl ⟨(Except.ok.inj h).symm, fun j' hj' => ?_⟩
    rw [hj'] at hnone
    exact nomatch hnone
  · rename_i first hfirst
    split at h
    · -- the same has been entered before
      rename_i he
      subst he
      obtain ⟨o, ho, hfirst⟩ := Option.bind_eq_some_iff.1 hfirst
      obtain rfl : o = some first := hfirst
      exact .inr ⟨(Except.ok.inj h).symm, ho⟩
    · exact nomatch h

/-- Entering a place to go to changes no cell. -/
theorem cell_of_enterGoto {state s j : Nat} (h : a.enterGoto state s j row = .ok row') :
    row'.actions = row.actions ∧ ∀ k, row'.cell k = row.cell k := by
  rcases enterGoto_cases h with ⟨rfl, -⟩ | ⟨rfl, -⟩
  · exact ⟨rfl, fun _ => rfl⟩
  · exact ⟨rfl, fun _ => rfl⟩

/-- Where to go is what it was before, apart from what has been entered. -/
theorem gotos_of_enterGoto {state s j : Nat} (h : a.enterGoto state s j row = .ok row')
    {n j' : Nat} (hn : row'.gotos[n]? = some (some j')) :
    row.gotos[n]? = some (some j') ∨ n = s ∧ j' = j := by
  rcases enterGoto_cases h with ⟨rfl, -⟩ | ⟨rfl, -⟩
  · rcases Decidable.eq_or_ne s n with rfl | hne
    · have hs : s < row.gotos.length := by
        have hs := (List.getElem?_eq_some_iff.1 hn).1
        rwa [List.length_set] at hs
      rw [List.getElem?_set_self hs] at hn
      exact .inr ⟨rfl, (Option.some.inj (Option.some.inj hn)).symm⟩
    · rw [List.getElem?_set_ne hne] at hn
      exact .inl hn
  · exact .inl hn

/-- A row with a place to go to has grown. -/
theorem grows_of_enterGoto {state s j : Nat} (h : a.enterGoto state s j row = .ok row') :
    row.Grows a.productions row' := by
  obtain ⟨hactions, hcell⟩ := cell_of_enterGoto h
  refine ⟨congrArg _ hactions, ?_, fun k b hb _ => (hcell k).symm ▸ hb,
    fun k p hp => (hcell k).symm ▸ hp, fun n j' hn => ?_⟩
  · rcases enterGoto_cases h with ⟨rfl, -⟩ | ⟨rfl, -⟩
    · exact List.length_set ..
    · rfl
  · rcases enterGoto_cases h with ⟨rfl, hnew⟩ | ⟨rfl, -⟩
    · have hne : s ≠ n := fun he => hnew j' (he ▸ hn)
      rw [List.getElem?_set_ne hne]
      exact hn
    · exact hn

/-- What it is to enter where a nonterminal leads. -/
theorem entered_goto {state s j : Nat} (hitem : item ∈ items)
    (ho : item.observed? a.productions = some s) (hlt : s < a.nonterminals)
    (hj : a.target? items s = some j) (h : a.enterGoto state s j row = .ok row') :
    Entered a items row row' item where
  justified hrow := by
    refine ⟨fun k act hact => hrow.actions k act ((cell_of_enterGoto h).2 k ▸ hact), ?_⟩
    intro n j' hn
    rcases gotos_of_enterGoto h hn with hn | ⟨rfl, rfl⟩
    · exact hrow.gotos n j' hn
    · exact ⟨item, hitem, ho, hj⟩
  grows := grows_of_enterGoto h
  heeds _ hbreadth := by
    refine heeds_of_observed ho (fun hge => absurd hlt (Nat.not_lt.2 hge)) fun _ => ⟨j, hj, ?_⟩
    rcases enterGoto_cases h with ⟨rfl, -⟩ | ⟨rfl, hget⟩
    · exact List.getElem?_set_self (hbreadth ▸ hlt)
    · exact hget

/-- Whatever the item is, it is entered. -/
theorem entered_of_enterItem {state : Nat} (hitem : item ∈ items)
    (h : (a.enterItem state items row item).result = .ok row') : Entered a items row row' item := by
  unfold enterItem at h
  split at h
  · -- nothing is to be read any more: the input is accepted, or the production reduced
    rename_i ho
    split at h
    · rename_i hp
      obtain rfl : a.enterAcceptance row = row' := Except.ok.inj h
      exact entered_acceptance hitem ho hp
    · rename_i hp
      rw [result_enterReductions] at h
      obtain rfl := Except.ok.inj h
      exact entered_reductions hitem ho hp
  · -- a symbol is to be read: a nonterminal leads to a state, and a terminal is shifted
    rename_i s ho
    split at h
    · exact nomatch h
    · rename_i j hj
      split at h
      · rename_i hlt
        exact entered_goto hitem ho hlt hj h
      · rename_i hge
        obtain rfl : a.enterShift s j row = row' := Except.ok.inj h
        exact entered_shift hitem ho (Nat.not_lt.1 hge) hj

/-! ## Entering all items -/

/-- Entering items one after the other keeps the row justified, and gives each what it asks for. -/
theorem enterItems_spec {state : Nat} {l : List Item} (hl : ∀ i ∈ l, i ∈ items)
    (h : (a.enterItems state items l row).result = .ok row') :
    (a.RowJustified items row → a.RowJustified items row') ∧ row.Grows a.productions row' ∧
      (row.actions.length = a.terminals → row.gotos.length = a.nonterminals →
        ∀ i ∈ l, a.Heeds items row' i) := by
  induction l generalizing row with
  | nil =>
    obtain rfl : row = row' := Except.ok.inj h
    exact ⟨id, .refl _ _, fun _ _ i hi => absurd hi List.not_mem_nil⟩
  | cons item l ih =>
    obtain ⟨mid, hmid, hrest⟩ := (Traced.result_bind_eq_ok_iff _ _ _).1 h
    have he := entered_of_enterItem (hl item List.mem_cons_self) hmid
    obtain ⟨hjust, hgrows, hheeds⟩ := ih (fun i hi => hl i (List.mem_cons_of_mem item hi)) hrest
    refine ⟨fun hrow => hjust (he.justified hrow), he.grows.trans hgrows, ?_⟩
    intro hwidth hbreadth i hi
    -- what the first item asks for is not overwritten by the others
    rcases List.mem_cons.1 hi with rfl | hi
    · exact (he.heeds hwidth hbreadth).grows hgrows
    · exact hheeds (he.grows.width.trans hwidth) (he.grows.breadth.trans hbreadth) i hi

/-- Nothing in a blank row is without reason. -/
theorem rowJustified_blank (items : ItemSet) :
    a.RowJustified items (.blank a.terminals a.nonterminals) := by
  refine ⟨fun k act hact => ?_, fun n j hn => ?_⟩
  · rw [Row.cell, Row.blank, List.getElem?_replicate] at hact
    split at hact <;> exact absurd hact List.not_mem_nil
  · rw [Row.blank, List.getElem?_replicate] at hn
    split at hn <;> exact nomatch hn

/-- The row of a state says what the items of the state ask for, and nothing else. -/
theorem row_spec {state : Nat} (h : (a.row state items).result = .ok row) :
    a.RowJustified items row ∧ ∀ i ∈ items, a.Heeds items row i := by
  obtain ⟨hjust, -, hheeds⟩ := enterItems_spec (fun i hi => hi) h
  exact ⟨hjust (rowJustified_blank items), hheeds List.length_replicate List.length_replicate⟩

/-! ## The rows of all states -/

/-- The tables have a row for every state. -/
theorem length_rowsFrom {state : Nat} {states : List ItemSet} {t : Tables}
    (h : (a.rowsFrom state states).result = .ok t) : t.length = states.length := by
  induction states generalizing state t with
  | nil =>
    obtain rfl : [] = t := Except.ok.inj h
    rfl
  | cons items states ih =>
    obtain ⟨row, _, h⟩ := (Traced.result_bind_eq_ok_iff _ _ _).1 h
    obtain ⟨rows, hrows, h⟩ := (Traced.result_bind_eq_ok_iff _ _ _).1 h
    obtain rfl : row :: rows = t := Except.ok.inj h
    exact congrArg (· + 1) (ih hrows)

/-- Each row of the tables is that of its state. By induction on the states. -/
theorem row_of_rowsFrom {state : Nat} {states : List ItemSet} {t : Tables}
    (h : (a.rowsFrom state states).result = .ok t) {i : Nat} (hi : states[i]? = some items) :
    ∃ row, t[i]? = some row ∧ (a.row (state + i) items).result = .ok row := by
  induction states generalizing state t i with
  | nil => exact nomatch hi
  | cons items' states ih =>
    obtain ⟨row, hrow, h⟩ := (Traced.result_bind_eq_ok_iff _ _ _).1 h
    obtain ⟨rows, hrows, h⟩ := (Traced.result_bind_eq_ok_iff _ _ _).1 h
    obtain rfl : row :: rows = t := Except.ok.inj h
    cases i with
    | zero =>
      obtain rfl := Option.some.inj hi
      exact ⟨row, rfl, hrow⟩
    | succ i =>
      obtain ⟨row', hget, hrow'⟩ := ih hrows hi
      exact ⟨row', hget, by rwa [Nat.add_right_comm] at hrow'⟩

/-- Each state has its row in the tables. -/
theorem tables_spec {t : Tables} (h : a.tables.result = .ok t) {i : Nat}
    (hi : a.states[i]? = some items) :
    ∃ row, t[i]? = some row ∧ a.RowJustified items row ∧ ∀ x ∈ items, a.Heeds items row x := by
  obtain ⟨row, hrow, hok⟩ := row_of_rowsFrom h hi
  exact ⟨row, hrow, row_spec hok⟩

end Automaton

end GuardedGrammar
