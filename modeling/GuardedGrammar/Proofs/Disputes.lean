/-
  Terminals that a state disputes.

  A state disputes a terminal if it waits for it and has a reduction that is due when it comes
  (`IsDisputed`).  However reductions displace each other, one that is due leaves one in the cell, so a
  dispute is never hidden; and no other conflict comes up, since acceptance keeps all reductions out and
  the end marker is never shifted, and all reductions without a guard but one give way.

  Main statement: `validate_cases`, the tables pass if there is no dispute, and otherwise fail with the
  first one, by state and then by terminal.
-/
import GuardedGrammar.Proofs.RuleAutomaton
import GuardedGrammar.Proofs.TableLookup

namespace GuardedGrammar

namespace Automaton

variable (a : Automaton)

/-- When the terminal comes, it could be shifted, and a production could be reduced. -/
structure IsDisputed (items : ItemSet) (t : Nat) : Prop where
  shift : a.Awaits items t
  reduce : ∃ p, a.IsDue items.toList t p

/-- The state with the number disputes the terminal. -/
def DisputedAt (i t : Nat) : Prop :=
  ∃ items, a.states[i]? = some items ∧ a.nonterminals ≤ t ∧ a.IsDisputed items t

/-- No state before this one disputes a terminal, and this one disputes none before the terminal. -/
structure IsFirstDispute (i t : Nat) : Prop where
  disputed : a.DisputedAt i t
  first : ∀ j s, a.DisputedAt j s → i < j ∨ i = j ∧ t ≤ s

variable {a} {items : ItemSet} {t i : Nat} {c : Cell} {tables : Tables}

/-- There is one first dispute only, since states and terminals are ordered. -/
theorem IsFirstDispute.unique (h : a.IsFirstDispute i t) {j s : Nat} (h' : a.IsFirstDispute j s) :
    i = j ∧ t = s := by
  have hle := h.first j s h'.disputed
  have hge := h'.first i t h.disputed
  omega

/-! ## Cells -/

/-- A disputed terminal has a shift and a reduction in its cell. -/
theorem Declares.conflict?_of_isDisputed (hwf : a.WellFormed) (hitems : items ∈ a.states)
    (h : a.Declares items t c) (hd : a.IsDisputed items t) :
    c.conflict? a.productions = some .shiftReduce := by
  -- only the end marker is accepted, and nothing waits for that
  have haccept : .accept ∉ c := by
    intro hmem
    have hlt := hwf.lt_endMarker_of_awaits hd.shift
    have hend := (h.accept.1 hmem).1
    omega
  obtain ⟨j, hj⟩ := hwf.leadsOn hitems t hd.shift
  obtain ⟨p, hp⟩ := hd.reduce
  obtain ⟨q, hq⟩ := h.holds.exists_reduce haccept hp
  exact Cell.conflict?_eq_shiftReduce haccept ((h.shift j).2 ⟨hd.shift, hj⟩) hq

/-- The cell of any other terminal can be decided. -/
theorem Declares.conflict?_of_not_isDisputed (hwf : a.WellFormed) (h : a.Declares items t c)
    (hd : ¬a.IsDisputed items t) : c.conflict? a.productions = none := by
  -- where the end of the input is accepted, nothing is shifted
  have hshift : .accept ∈ c → ∀ j, .shift j ∉ c := by
    intro haccept j hj
    have hlt := hwf.lt_endMarker_of_awaits ((h.shift j).1 hj).1
    have hend := (h.accept.1 haccept).1
    omega
  refine Cell.conflict?_eq_none h.holds.nodup (fun haccept b hb => ?_) (fun j hj b hb => ?_)
    fun p hp hpun q hq hqun => h.holds.eq_of_unguarded hp hpun hq hqun
  · cases b with
    | shift j => exact absurd hb (hshift haccept j)
    | reduce p => exact absurd haccept ((h.holds.reduce p).1 hb).1
    | accept => rfl
  · obtain ⟨hawaits, htarget⟩ := (h.shift j).1 hj
    cases b with
    | shift j' =>
      have htarget' := ((h.shift j').1 hb).2
      rw [Option.some.inj (htarget'.symm.trans htarget)]
    | reduce p => exact absurd ⟨hawaits, p, ((h.holds.reduce p).1 hb).2.mem⟩ hd
    | accept => exact absurd hj (hshift hb j)

/-! ## Tables -/

/-- Every cell is that of a state and a terminal. -/
theorem exists_of_cell (htables : a.tables.result = .ok tables) {row : List Cell} {k : Nat}
    (hrow : (tables.map (·.actions))[i]? = some row) (hc : row[k]? = some c) :
    ∃ items t, a.states[i]? = some items ∧ a.nonterminals ≤ t ∧ t < a.names.size ∧
      a.column t = k ∧ c = tables.cell i k := by
  rw [List.getElem?_map] at hrow
  obtain ⟨row, hget, rfl⟩ := Option.map_eq_some_iff.1 hrow
  have hi : i < a.states.length := by
    rw [← length_rowsFrom htables]
    exact (List.getElem?_eq_some_iff.1 hget).1
  obtain ⟨row', hget', hrow'⟩ := row_of_rowsFrom htables (List.getElem?_eq_getElem hi)
  obtain rfl := Option.some.inj (hget.symm.trans hget')
  -- rows have a cell for each terminal, so the column is that of one
  have hk : k < a.terminals := by
    rw [← length_actions_row hrow']
    exact (List.getElem?_eq_some_iff.1 hc).1
  refine ⟨_, a.nonterminals + k, List.getElem?_eq_getElem hi, Nat.le_add_right _ _, ?_, ?_, ?_⟩
  · unfold terminals at hk
    omega
  · exact Nat.add_sub_cancel_left _ _
  · rw [Tables.cell_eq_of_row hget, Row.cell, hc]
    rfl

section

variable (hwf : a.WellFormed) (htables : a.tables.result = .ok tables)
include hwf htables

/-- The cell of a state and a terminal has what the state declares. -/
theorem declares_cell (hitems : a.states[i]? = some items) (hge : a.nonterminals ≤ t)
    (hlt : t < a.names.size) :
    ∃ row, (tables.map (·.actions))[i]? = some row ∧
      row[a.column t]? = some (tables.cell i (a.column t)) ∧
      a.Declares items t (tables.cell i (a.column t)) := by
  obtain ⟨row, hget, hrow⟩ := row_of_rowsFrom htables hitems
  have hcolumn : a.column t < row.actions.length := by
    rw [length_actions_row hrow]
    exact column_lt_terminals hge hlt
  have hcell : row.actions[a.column t]? = some (row.cell (a.column t)) := by
    rw [Row.cell, List.getElem?_eq_getElem hcolumn]
    rfl
  rw [Tables.cell_eq_of_row hget]
  refine ⟨row.actions, ?_, hcell, declares_row hwf.follow hrow hge hlt⟩
  rw [List.getElem?_map, hget]
  rfl

/-- A dispute is a conflict in the tables. -/
theorem conflict?_cell_of_disputedAt (hd : a.DisputedAt i t) :
    ∃ row, (tables.map (·.actions))[i]? = some row ∧
      row[a.column t]? = some (tables.cell i (a.column t)) ∧
      (tables.cell i (a.column t)).conflict? a.productions = some .shiftReduce := by
  obtain ⟨items, hitems, hge, hdisputed⟩ := hd
  have hlt := hwf.lt_size_of_awaits hdisputed.shift
  obtain ⟨row, hrow, hc, hdeclares⟩ := declares_cell hwf htables hitems hge hlt
  exact ⟨row, hrow, hc,
    hdeclares.conflict?_of_isDisputed hwf (List.mem_of_getElem? hitems) hdisputed⟩

/-- A conflict in the tables is a dispute. -/
theorem disputedAt_of_conflict? {row : List Cell} {k : Nat}
    (hrow : (tables.map (·.actions))[i]? = some row) (hc : row[k]? = some c) {kind : ConflictKind}
    (hkind : c.conflict? a.productions = some kind) :
    kind = .shiftReduce ∧ c = tables.cell i k ∧
      ∃ t, a.DisputedAt i t ∧ t < a.names.size ∧ a.column t = k := by
  obtain ⟨items, t, hitems, hge, hlt, rfl, rfl⟩ := exists_of_cell htables hrow hc
  obtain ⟨-, -, -, hdeclares⟩ := declares_cell hwf htables hitems hge hlt
  -- the cell of a terminal without a dispute has no conflict
  by_cases hd : a.IsDisputed items t
  · have hshift := hdeclares.conflict?_of_isDisputed hwf (List.mem_of_getElem? hitems) hd
    exact ⟨Option.some.inj (hkind.symm.trans hshift), rfl, t, ⟨items, hitems, hge, hd⟩, hlt, rfl⟩
  · rw [hdeclares.conflict?_of_not_isDisputed hwf hd] at hkind
    exact nomatch hkind

/-- Tables pass if no state disputes a terminal; otherwise the first dispute is reported. -/
theorem validate_cases :
    (a.validate (tables.map (·.actions)) = .ok () ∧ ∀ i t, ¬a.DisputedAt i t) ∨
    ∃ i t name, a.IsFirstDispute i t ∧ a.names.name? t = some name ∧
      a.validate (tables.map (·.actions)) =
        .error (.tableConflict .shiftReduce i name (tables.cell i (a.column t))) := by
  unfold validate
  cases hconflict : Tables.conflict? a.productions (tables.map (·.actions)) with
  | none =>
    refine .inl ⟨rfl, fun i t hd => ?_⟩
    obtain ⟨row, hrow, hc, hkind⟩ := conflict?_cell_of_disputedAt hwf htables hd
    rw [Tables.conflict?_eq_none hconflict hrow hc] at hkind
    exact nomatch hkind
  | some x =>
    right
    obtain ⟨kind, i, k, c⟩ := x
    obtain ⟨row, hrow, hc, hkind, hfirst⟩ := Tables.conflict?_eq_some hconflict
    dsimp only at hrow hc hkind hfirst
    obtain ⟨rfl, rfl, t, hd, hlt, rfl⟩ := disputedAt_of_conflict? hwf htables hrow hc hkind
    have hge : a.nonterminals ≤ t := hd.elim fun _ h => h.2.1
    have hname : a.names.name? t = some (a.nameOf (a.nonterminals + a.column t)) := by
      have ht : a.nonterminals + a.column t = t := Nat.add_sub_cancel' hge
      rw [nameOf, ht, SymbolTable.name?, List.getElem?_eq_getElem hlt]
      rfl
    refine ⟨i, t, _, ⟨hd, fun j s hs => ?_⟩, hname, rfl⟩
    obtain ⟨row', hrow', hc', hkind'⟩ := conflict?_cell_of_disputedAt hwf htables hs
    have hle := hfirst j row' _ _ hrow' hc' (by rw [hkind']; exact Option.some_ne_none _)
    have hges : a.nonterminals ≤ s := hs.elim fun _ h => h.2.1
    -- columns come in the order of terminals
    dsimp only [column] at hle
    omega

end

end Automaton

end GuardedGrammar
