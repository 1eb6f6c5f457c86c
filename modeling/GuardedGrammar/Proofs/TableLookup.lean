/-
  Looking actions up in the tables of a grammar that has been built.

  What a cell of the tables holds for a terminal is asked for by an item of the state, which waits for
  the terminal or has been read to its end (`mem_of_shift_mem_actions` and its companions); a state
  that waits for a nonterminal has somewhere to go (`exists_goto?`); and every cell can be acted on
  (`isDecided_actions`).  States are those of the collection, of which the first is the start state.
-/
import GuardedGrammar.Proofs.Built
import GuardedGrammar.Proofs.Exploration

namespace GuardedGrammar

/-! ## Places in the tables -/

/-- The state that a symbol leads to is listed under its number. -/
theorem Automaton.getElem?_of_target? {a : Automaton} {items : ItemSet} {s j : Nat}
    (h : a.target? items s = some j) :
    a.states[j]? = some (successor a.productions a.nonterminals items s) := by
  obtain ⟨hlt, he, -⟩ := List.idxOf?_eq_some_iff.1 h
  rw [List.getElem?_eq_getElem hlt]
  simpa using he

/-! The cells of a state and where its nonterminals lead are told by its row. -/

theorem Tables.cell_eq_of_row {t : Tables} {i : Nat} {row : Row} (h : t[i]? = some row) (k : Nat) :
    t.cell i k = row.cell k := by
  rw [Tables.cell, h]
  rfl

theorem Tables.goto?_eq_some_iff_of_row {t : Tables} {i : Nat} {row : Row} (h : t[i]? = some row)
    (n j : Nat) : t.goto? i n = some j ↔ row.gotos[n]? = some (some j) := by
  rw [Tables.goto?, h]
  show (row.gotos[n]?).bind id = some j ↔ _
  exact Option.bind_eq_some_iff.trans ⟨fun ⟨o, ho, hj⟩ => ho.trans (congrArg some hj),
    fun ho => ⟨some j, ho, rfl⟩⟩

namespace Grammar

/-! ## Cells and places to go by name -/

/-! The names with the lowest numbers are the nonterminals, as many as the automaton has, and all
others are terminals. So they are looked up, and so they are listed. -/

theorem terminalId?_eq_some_iff (g : Grammar) (name : String) (id : Nat) :
    g.terminalId? name = some id ↔
      (name ∈ g.names.names ∧ g.names.idOf name = id) ∧ g.automaton.nonterminals ≤ id := by
  rw [terminalId?, Option.filter_eq_some_iff, SymbolTable.id?_eq_some_iff_idOf, decide_eq_true_eq]

theorem nonterminalId?_eq_some_iff (g : Grammar) (name : String) (id : Nat) :
    g.nonterminalId? name = some id ↔
      (name ∈ g.names.names ∧ g.names.idOf name = id) ∧ id < g.automaton.nonterminals := by
  rw [nonterminalId?, Option.filter_eq_some_iff, SymbolTable.id?_eq_some_iff_idOf,
    decide_eq_true_eq]

theorem mem_nonterminals_iff (g : Grammar) (name : String) :
    name ∈ g.nonterminals ↔ name ∈ g.names.names ∧ g.names.idOf name < g.automaton.nonterminals := by
  constructor
  · intro h
    have hmem := List.mem_of_mem_take h
    exact ⟨hmem, (List.mem_take_iff_idxOf_lt hmem).1 h⟩
  · rintro ⟨hmem, hlt⟩
    exact (List.mem_take_iff_idxOf_lt hmem).2 hlt

theorem mem_terminals_iff (g : Grammar) (name : String) :
    name ∈ g.terminals ↔ name ∈ g.names.names ∧ g.automaton.nonterminals ≤ g.names.idOf name := by
  constructor
  · intro h
    have hmem := List.mem_of_mem_drop h
    refine ⟨hmem, Nat.not_lt.1 fun hlt => ?_⟩
    -- a name stands in one place only
    exact List.disjoint_take_drop g.names.nodup (Nat.le_refl _)
      ((List.mem_take_iff_idxOf_lt hmem).2 hlt) h
  · rintro ⟨hmem, hge⟩
    have hsplit := hmem
    rw [← List.take_append_drop g.automaton.nonterminals g.names.names, List.mem_append] at hsplit
    refine hsplit.resolve_left fun h => ?_
    exact Nat.not_lt.2 hge ((List.mem_take_iff_idxOf_lt hmem).1 h)

/-- The cell for a terminal is looked up under its number. -/
theorem actions_of_terminalId? {g : Grammar} {name : String} {id : Nat}
    (h : g.terminalId? name = some id) (state : Nat) :
    g.actions state name = g.cell state id := by
  rw [actions, h]

/-- Only terminals have actions. -/
theorem exists_terminalId?_of_mem_actions {g : Grammar} {state : Nat} {name : String} {act : Action}
    (h : act ∈ g.actions state name) : g.terminalId? name = some (g.names.idOf name) := by
  unfold actions at h
  split at h
  · rename_i id hid
    rw [hid, ((g.terminalId?_eq_some_iff name id).1 hid).1.2]
  · exact absurd h List.not_mem_nil

/-- Where a nonterminal leads is looked up under its number. -/
theorem goto?_eq_some_iff (g : Grammar) (state : Nat) (name : String) (j : Nat) :
    g.goto? state name = some j ↔ (name ∈ g.names.names ∧
      g.names.idOf name < g.automaton.nonterminals) ∧
        g.tables.goto? state (g.names.idOf name) = some j := by
  rw [goto?, Option.bind_eq_some_iff]
  constructor
  · rintro ⟨id, hid, hj⟩
    obtain ⟨⟨hmem, rfl⟩, hlt⟩ := (g.nonterminalId?_eq_some_iff name id).1 hid
    exact ⟨⟨hmem, hlt⟩, hj⟩
  · rintro ⟨⟨hmem, hlt⟩, hj⟩
    exact ⟨_, (g.nonterminalId?_eq_some_iff name _).2 ⟨⟨hmem, rfl⟩, hlt⟩, hj⟩

namespace IsBuiltFrom

variable {g : Grammar} {first : Rule} {rest : List Rule} (hg : g.IsBuiltFrom first rest)
  {state : Nat} {name : String} {items : ItemSet}
include hg

theorem states_zero : g.states[0]? =
    some (startState g.automaton.productions g.automaton.nonterminals) := by
  show g.automaton.states[0]? = _
  rw [hg.states_eq, getElem?_zero_collection]

/-! ## What is in a cell -/

/-- An action in a cell is justified by the items of the state. -/
theorem justified_of_mem_actions (hitems : g.states[state]? = some items) {act : Action}
    (h : act ∈ g.actions state name) :
    g.automaton.Justified items (g.automaton.column (g.names.idOf name)) act ∧
      g.automaton.nonterminals ≤ g.names.idOf name := by
  have hid := exists_terminalId?_of_mem_actions h
  obtain ⟨row, hrow, hjust, -⟩ := Automaton.tables_spec hg.tables_eq hitems
  rw [actions_of_terminalId? hid] at h
  refine ⟨hjust.actions _ act ?_, ((g.terminalId?_eq_some_iff name _).1 hid).2⟩
  rw [← Tables.cell_eq_of_row hrow]
  exact h

/-- A shift leads to the state that its terminal leads to. -/
theorem mem_of_shift_mem_actions (hitems : g.states[state]? = some items) {j : Nat}
    (h : .shift j ∈ g.actions state name) :
    g.states[j]? = some (successor g.automaton.productions g.automaton.nonterminals items
      (g.names.idOf name)) := by
  obtain ⟨⟨_, -, s, -, hge, hcol, hj⟩, hname⟩ := hg.justified_of_mem_actions hitems h
  obtain rfl := Automaton.column_inj hge hname hcol
  exact Automaton.getElem?_of_target? hj

/-- A terminal that is shifted stands in a rule, so it is not the end marker. -/
theorem ne_endName_of_shift_mem_actions (hitems : g.states[state]? = some items) {j : Nat}
    (h : .shift j ∈ g.actions state name) : name ≠ endName := by
  obtain ⟨⟨x, -, s, ho, hge, hcol, -⟩, hname⟩ := hg.justified_of_mem_actions hitems h
  obtain rfl := Automaton.column_inj hge hname hcol
  obtain ⟨hrule, symbol, hsymbol, hid⟩ := hg.observed?_eq_some ho
  have hmem : symbol ∈ (g.rule x.production).symbols :=
    List.mem_cons_of_mem _ (List.mem_of_getElem? hsymbol)
  have heq : symbol.name = name := SymbolTable.idOf_inj (hg.mem_names hrule hmem) hid
  rw [← heq]
  exact hg.name_ne_endName hrule hmem

/-- A reduction is of a production that has been read, other than the first one. -/
theorem mem_of_reduce_mem_actions (hitems : g.states[state]? = some items) {p : Nat}
    (h : .reduce p ∈ g.actions state name) :
    p ≠ startProduction ∧
      ∃ x ∈ items, x.production = p ∧ x.observed? g.automaton.productions = none := by
  obtain ⟨⟨hp, hx, -⟩, -⟩ := hg.justified_of_mem_actions hitems h
  exact ⟨hp, hx⟩

/-- The input is accepted at its end, where the start symbol has been read. -/
theorem mem_of_accept_mem_actions (hitems : g.states[state]? = some items)
    (h : .accept ∈ g.actions state name) :
    name = endName ∧ ∃ x ∈ items, x.production = startProduction ∧
      x.observed? g.automaton.productions = none := by
  obtain ⟨⟨hcol, hx⟩, hname⟩ := hg.justified_of_mem_actions hitems h
  -- no other terminal has the column of the end marker
  have hid := Automaton.column_inj hname hg.endMarker_range.1 hcol
  rw [← hg.idOf_endName] at hid
  exact ⟨(SymbolTable.idOf_inj hg.endName_mem_names hid.symm).symm, hx⟩

/-- A goto leads to the state that its nonterminal leads to. -/
theorem getElem?_of_goto? (hitems : g.states[state]? = some items) {j : Nat}
    (h : g.goto? state name = some j) :
    g.states[j]? = some (successor g.automaton.productions g.automaton.nonterminals items
      (g.names.idOf name)) := by
  obtain ⟨row, hrow, hjust, -⟩ := Automaton.tables_spec hg.tables_eq hitems
  have hj := ((g.goto?_eq_some_iff state name j).1 h).2
  rw [Tables.goto?_eq_some_iff_of_row hrow] at hj
  obtain ⟨_, -, -, ht⟩ := hjust.gotos _ _ hj
  exact Automaton.getElem?_of_target? ht

/-! ## What has to be in the tables -/

/-- A state that waits for a nonterminal has somewhere to go with it. -/
theorem exists_goto? (hitems : g.states[state]? = some items) {x : Item} (hx : x ∈ items)
    (ho : x.observed? g.automaton.productions = some (g.names.idOf name))
    (hname : name ∈ g.names.names) (hlt : g.names.idOf name < g.automaton.nonterminals) :
    ∃ j, g.goto? state name = some j := by
  obtain ⟨row, hrow, -, hheeds⟩ := Automaton.tables_spec hg.tables_eq hitems
  obtain ⟨j, -, hget⟩ := (hheeds x hx).goto _ ho hlt
  refine ⟨j, (g.goto?_eq_some_iff state name j).2 ⟨⟨hname, hlt⟩, ?_⟩⟩
  exact (Tables.goto?_eq_some_iff_of_row hrow _ _).2 hget

/-- The actions for a terminal are a cell of the row of the state. -/
theorem actions_eq_cell (hitems : g.states[state]? = some items) (hname : name ∈ g.names.names)
    (hge : g.automaton.nonterminals ≤ g.names.idOf name) :
    ∃ row, g.actions state name = row.cell (g.automaton.column (g.names.idOf name)) ∧
      ∀ x ∈ items, g.automaton.Heeds items row x := by
  obtain ⟨row, hrow, -, hheeds⟩ := Automaton.tables_spec hg.tables_eq hitems
  refine ⟨row, ?_, hheeds⟩
  rw [actions_of_terminalId? ((g.terminalId?_eq_some_iff name _).2 ⟨⟨hname, rfl⟩, hge⟩)]
  exact Tables.cell_eq_of_row hrow _

/-- A state that waits for a terminal shifts it. -/
theorem exists_shift_mem_actions (hitems : g.states[state]? = some items) {x : Item}
    (hx : x ∈ items) (ho : x.observed? g.automaton.productions = some (g.names.idOf name))
    (hname : name ∈ g.names.names) (hge : g.automaton.nonterminals ≤ g.names.idOf name) :
    ∃ j, .shift j ∈ g.actions state name := by
  obtain ⟨row, hactions, hheeds⟩ := hg.actions_eq_cell hitems hname hge
  obtain ⟨j, -, hmem⟩ := (hheeds x hx).shift _ ho hge
    ((SymbolTable.idOf_lt_size_iff _ _).2 hname)
  exact ⟨j, hactions ▸ hmem⟩

/-- A state in which the start production has been read accepts at the end marker. -/
theorem accept_mem_actions (hitems : g.states[state]? = some items) {x : Item} (hx : x ∈ items)
    (ho : x.observed? g.automaton.productions = none) (hp : x.production = startProduction) :
    .accept ∈ g.actions state endName := by
  have hge : g.automaton.nonterminals ≤ g.names.idOf endName := by
    rw [hg.idOf_endName]
    exact hg.endMarker_range.1
  obtain ⟨row, hactions, hheeds⟩ := hg.actions_eq_cell hitems hg.endName_mem_names hge
  rw [hactions, hg.idOf_endName]
  exact (hheeds x hx).accept ho hp hg.nonterminals_lt_size

/-- A state in which another production has been read provides for its reduction wherever a terminal
comes that can follow. -/
theorem covers_actions (hitems : g.states[state]? = some items) {x : Item} (hx : x ∈ items)
    (ho : x.observed? g.automaton.productions = none) (hp : x.production ≠ startProduction)
    (hname : name ∈ g.names.names) (hge : g.automaton.nonterminals ≤ g.names.idOf name)
    (hfollow : g.names.idOf name ∈
      FollowSets.of g.automaton.follow (g.automaton.lhsOf x.production)) :
    Cell.Covers g.automaton.productions (g.actions state name) x.production := by
  obtain ⟨row, hactions, hheeds⟩ := hg.actions_eq_cell hitems hname hge
  rw [hactions]
  exact (hheeds x hx).reduce ho hp _ hfollow hge ((SymbolTable.idOf_lt_size_iff _ _).2 hname)

/-- A parse can act on every cell. -/
theorem isDecided_actions (state : Nat) (name : String) : (g.actions state name).IsDecided := by
  unfold actions
  split
  · exact Tables.isDecided_cell hg.undisputed _ _
  · exact .empty

end IsBuiltFrom

end Grammar

end GuardedGrammar
