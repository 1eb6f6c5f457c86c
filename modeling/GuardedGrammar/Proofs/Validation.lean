/-
  What the check of a table lets pass.

  A cell may hold two or more actions only if they are reductions, and at most one of these is of a
  production without a guard, counted as often as it is listed (`Cell.IsAllowed`).  The check lets just
  these cells pass, whatever table over the productions they come from (`Cell.IsOver`).  It searches the
  cells in the order of the states and of the columns and stops at the first that is not allowed
  (`Tables.IsFirstRefused`), of which there is one at most; so what it finds is told by the table, and
  not by how it searches.

  A table that passes has a parse find nothing but empty cells, acceptance or a shift alone, and
  reductions (`Cell.IsDecided`).  The error for a table that does not pass lists the actions of the cell,
  and no other cell is listed like it (`Cell.render_injective`).

  Main statement: `Automaton.validate_exact`.
-/
import GuardedGrammar.Proofs.Built
import GuardedGrammar.Proofs.Registers
import GuardedGrammar.Proofs.Spelling

namespace GuardedGrammar

namespace Cell

variable {productions : List Production} {c : Cell} {kind : ConflictKind}

/-! ## Cells that are allowed

The check counts actions. With productions given for all reductions, what it counts are the
reductions without a guard. -/

/-- All that the cell reduces are productions that there are. -/
def IsOver (productions : List Production) (c : Cell) : Prop :=
  ∀ p, .reduce p ∈ c → p < productions.length

/-- The productions without a guard that a cell reduces, as often as it lists them. -/
def unguardedReductions (productions : List Production) (c : Cell) : List Nat :=
  (c.filterMap Action.reduction?).filter fun p => productions[p]?.any (!·.guarded)

/-- There are two or more actions only where all of them are reductions, and at most one of a production
without a guard. -/
def IsAllowed (productions : List Production) (c : Cell) : Prop :=
  2 ≤ c.length →
    (∀ a ∈ c, ∃ p, a = .reduce p) ∧ (c.unguardedReductions productions).length ≤ 1

/-- Why a cell is not allowed: acceptance comes before shifts, and shifts before reductions. -/
inductive HasKind (c : Cell) : ConflictKind → Prop
  | accept (haccept : .accept ∈ c) : HasKind c .accept
  | shiftReduce {state : Nat} (haccept : .accept ∉ c) (hshift : .shift state ∈ c) :
    HasKind c .shiftReduce
  | reduceReduce (haccept : .accept ∉ c) (hshift : ∀ state, .shift state ∉ c) :
    HasKind c .reduceReduce

theorem HasKind.unique {kind' : ConflictKind} (h : c.HasKind kind) (h' : c.HasKind kind') :
    kind = kind' := by
  cases h with
  -- the kinds are told apart by whether the input is accepted and whether there is a shift
  | accept haccept =>
    cases h' with
    | accept => rfl
    | shiftReduce hnone => exact absurd haccept hnone
    | reduceReduce hnone => exact absurd haccept hnone
  | shiftReduce haccept hshift =>
    cases h' with
    | accept h => exact absurd h haccept
    | shiftReduce => rfl
    | reduceReduce _ hnone => exact absurd hshift (hnone _)
  | reduceReduce haccept hshift =>
    cases h' with
    | accept h => exact absurd h haccept
    | shiftReduce _ h => exact absurd h (hshift _)
    | reduceReduce => rfl

/-- By induction on the actions: a reduction counts if its production has no guard. -/
theorem countP_isUnguarded (hover : c.IsOver productions) :
    c.countP (·.isUnguarded productions) = (c.unguardedReductions productions).length := by
  induction c with
  | nil => rfl
  | cons a c ih =>
    rw [List.countP_cons, ih fun p hp => hover p (List.mem_cons_of_mem a hp)]
    unfold unguardedReductions
    cases a with
    -- only reductions are counted on either side
    | shift j => rfl
    | accept => rfl
    | reduce p =>
      have hlt : p < productions.length := hover p List.mem_cons_self
      have hguard : (Action.reduce p).isUnguarded productions =
          productions[p]?.any (!·.guarded) := by
        show (!(productions[p]?.map (·.guarded)).getD false) = _
        rw [List.getElem?_eq_getElem hlt]
        rfl
      have hlisted : (Action.reduce p :: c).filterMap Action.reduction? =
          p :: c.filterMap Action.reduction? := rfl
      rw [hlisted, List.filter_cons, hguard]
      split <;> rfl

/-- A cell has a shift if some action is one. -/
theorem any_isShift_iff : c.any Action.isShift = true ↔ ∃ state, .shift state ∈ c := by
  rw [List.any_eq_true]
  constructor
  · rintro ⟨a, ha, hshift⟩
    cases a with
    | shift j => exact ⟨j, ha⟩
    | reduce => exact nomatch hshift
    | accept => exact nomatch hshift
  · rintro ⟨j, hj⟩
    exact ⟨_, hj, rfl⟩

/-- A cell is allowed and has no conflict, or it is not and has one of its kind. -/
theorem conflict?_cases (hover : c.IsOver productions) :
    (c.IsAllowed productions ∧ c.conflict? productions = none) ∨
      ∃ kind, ¬c.IsAllowed productions ∧ c.HasKind kind ∧
        c.conflict? productions = some kind := by
  unfold conflict?
  by_cases hlen : c.length < 2
  · have hallowed : c.IsAllowed productions := fun htwo => absurd hlen (Nat.not_lt.2 htwo)
    exact .inl ⟨hallowed, if_pos hlen⟩
  · have htwo : 2 ≤ c.length := Nat.not_lt.1 hlen
    rw [if_neg hlen, countP_isUnguarded hover]
    by_cases haccept : .accept ∈ c
    · refine .inr ⟨.accept, fun hallowed => ?_, .accept haccept,
        if_pos (List.contains_iff_mem.2 haccept)⟩
      obtain ⟨_, hreduce⟩ := (hallowed htwo).1 _ haccept
      exact nomatch hreduce
    · rw [if_neg fun h => haccept (List.contains_iff_mem.1 h)]
      by_cases hshift : ∃ state, .shift state ∈ c
      · obtain ⟨state, hmem⟩ := hshift
        refine .inr ⟨.shiftReduce, fun hallowed => ?_, .shiftReduce haccept hmem,
          if_pos (any_isShift_iff.2 ⟨state, hmem⟩)⟩
        obtain ⟨_, hreduce⟩ := (hallowed htwo).1 _ hmem
        exact nomatch hreduce
      · rw [if_neg fun h => hshift (any_isShift_iff.1 h)]
        have hnoshift : ∀ state, .shift state ∉ c := fun state h => hshift ⟨state, h⟩
        by_cases hcount : (c.unguardedReductions productions).length ≤ 1
        · -- all that is left are reductions
          refine .inl ⟨fun _ => ⟨fun a ha => ?_, hcount⟩, if_neg (Nat.not_lt.2 hcount)⟩
          obtain ⟨ps, rfl⟩ := exists_map_reduce_of_forall haccept hnoshift
          obtain ⟨p, -, rfl⟩ := List.mem_map.1 ha
          exact ⟨p, rfl⟩
        · exact .inr ⟨.reduceReduce, fun hallowed => hcount (hallowed htwo).2,
            .reduceReduce haccept hnoshift, if_pos (Nat.not_le.1 hcount)⟩

/-- There is no conflict in a cell exactly if it is allowed. -/
theorem conflict?_eq_none_iff (hover : c.IsOver productions) :
    c.conflict? productions = none ↔ c.IsAllowed productions := by
  rcases conflict?_cases hover with ⟨hallowed, hnone⟩ | ⟨kind, hnot, -, hsome⟩
  · exact iff_of_true hnone hallowed
  · rw [hsome]
    exact iff_of_false nofun hnot

/-- A cell that is not allowed has a conflict, which is of the kind of the cell, and no other cell
has one. -/
theorem conflict?_eq_some_iff (hover : c.IsOver productions) :
    c.conflict? productions = some kind ↔ ¬c.IsAllowed productions ∧ c.HasKind kind := by
  rcases conflict?_cases hover with ⟨hallowed, hnone⟩ | ⟨kind', hnot, hkind, hsome⟩
  · rw [hnone]
    exact iff_of_false nofun fun h => h.1 hallowed
  · rw [hsome]
    constructor
    · intro h
      obtain rfl := Option.some.inj h
      exact ⟨hnot, hkind⟩
    · rintro ⟨-, h⟩
      exact congrArg some (hkind.unique h)

/-- A reduction that is listed twice counts twice, though it is the same. -/
example : conflict? [{ lhs := 0, rhs := [], guarded := false }] [.reduce 0, .reduce 0] =
    some .reduceReduce := by
  decide

/-! ## How a cell is listed

Actions are listed with commas between them. No action is written with a comma, so a list can be
taken apart again. -/

/-- The first letter tells what an action is, and the number behind it does the rest. -/
theorem render_action_injective {a b : Action} (h : a.render = b.render) : a = b := by
  have hletter := congrArg (·.toList.head?) h
  simp only [Action.render] at h hletter
  cases a with
  -- the kinds differ in their letters, and numbers are written differently
  | shift m =>
    cases b with
    | shift n => rw [toString_injective ((String.append_right_inj _).1 h)]
    | reduce => simp at hletter
    | accept => simp at hletter
  | reduce p =>
    cases b with
    | shift => simp at hletter
    | reduce q => rw [toString_injective ((String.append_right_inj _).1 h)]
    | accept => simp at hletter
  | accept =>
    cases b with
    | shift => simp at hletter
    | reduce => simp at hletter
    | accept => rfl

/-- No action is written with a comma. -/
theorem not_mem_render (a : Action) : ',' ∉ a.render.toList := by
  have hnumber : ∀ n : Nat, ',' ∉ (toString n).toList := fun n hmem =>
    absurd (RuleText.isDigit_of_mem_digitsOf hmem) (by decide)
  cases a with
  | shift j =>
    unfold Action.render
    rw [String.toList_append]
    exact List.not_mem_cons_of_ne_of_not_mem (by decide) (hnumber j)
  | reduce p =>
    unfold Action.render
    rw [String.toList_append]
    exact List.not_mem_cons_of_ne_of_not_mem (by decide) (hnumber p)
  | accept => decide

/-- Behind the first action comes nothing, or a comma. -/
theorem exists_toList_render (a : Action) (c : Cell) : ∃ tail, (render (a :: c)).toList =
    a.render.toList ++ tail ∧ tail.takeWhile (· ≠ ',') = [] ∧
      (c = [] ∧ tail = [] ∨ c ≠ [] ∧ tail = ',' :: ' ' :: (render c).toList) := by
  unfold render
  rw [String.toList_intercalate, String.toList_intercalate]
  cases c with
  | nil => exact ⟨[], by simp, rfl, .inl ⟨rfl, rfl⟩⟩
  | cons b c =>
    refine ⟨',' :: ' ' :: _, ?_, rfl, .inr ⟨List.cons_ne_nil b c, rfl⟩⟩
    rw [List.map_cons, List.map_cons, List.map_cons, List.map_cons, List.intercalate_cons_cons,
      List.append_assoc]
    rfl

/-- Only a cell without actions is listed by nothing. -/
theorem render_nil_ne (a : Action) (c : Cell) : render [] ≠ render (a :: c) := by
  intro he
  obtain ⟨tail, htail, -⟩ := exists_toList_render a c
  rw [← he] at htail
  have hnil := (List.append_eq_nil_iff.1 htail.symm).1
  cases a <;> simp [Action.render] at hnil

/-- An action reaches up to the first comma. -/
theorem takeWhile_render_append (a : Action) {tail : List Char}
    (h : tail.takeWhile (· ≠ ',') = []) :
    (a.render.toList ++ tail).takeWhile (· ≠ ',') = a.render.toList := by
  rw [List.takeWhile_append_of_pos, h, List.append_nil]
  intro x hx
  exact decide_eq_true fun he => not_mem_render a (he ▸ hx)

/-- Cells that are listed in the same way are the same. -/
theorem render_injective {c c' : Cell} (h : c.render = c'.render) : c = c' := by
  induction c generalizing c' with
  | nil =>
    cases c' with
    | nil => rfl
    | cons a d => exact absurd h (render_nil_ne a d)
  | cons a c ih =>
    cases c' with
    | nil => exact absurd h.symm (render_nil_ne a c)
    | cons b d =>
      obtain ⟨tail, htail, hstop, hrest⟩ := exists_toList_render a c
      obtain ⟨tail', htail', hstop', hrest'⟩ := exists_toList_render b d
      rw [h] at htail
      have hsame := htail.symm.trans htail'
      -- the first action ends where the first comma stands
      have hfirst : a.render.toList = b.render.toList := by
        rw [← takeWhile_render_append a hstop, hsame, takeWhile_render_append b hstop']
      obtain rfl := render_action_injective (String.toList_injective hfirst)
      have htails := List.append_cancel_left hsame
      rcases hrest with ⟨rfl, rfl⟩ | ⟨-, rfl⟩
      · rcases hrest' with ⟨rfl, -⟩ | ⟨-, rfl⟩
        · rfl
        · exact nomatch htails
      · rcases hrest' with ⟨rfl, rfl⟩ | ⟨-, rfl⟩
        · exact nomatch htails
        · injection htails with _ htails
          injection htails with _ htails
          rw [ih (String.toList_injective htails)]

end Cell

/-! ## The first cell that is not allowed -/

namespace Tables

variable {productions : List Production} {rows : List (List Cell)} {state column : Nat} {c : Cell}

/-- The cell is not allowed, and those of earlier states, and of earlier columns in its own, are. -/
structure IsFirstRefused (productions : List Production) (rows : List (List Cell))
    (state column : Nat) (c : Cell) : Prop where
  cell : ∃ row, rows[state]? = some row ∧ row[column]? = some c
  refused : ¬c.IsAllowed productions
  first : ∀ state' row' column' c', rows[state']? = some row' → row'[column']? = some c' →
    ¬c'.IsAllowed productions → state < state' ∨ state = state' ∧ column ≤ column'

/-- There is one first cell at most. -/
theorem IsFirstRefused.unique {state' column' : Nat} {c' : Cell}
    (h : IsFirstRefused productions rows state column c)
    (h' : IsFirstRefused productions rows state' column' c') :
    state = state' ∧ column = column' ∧ c = c' := by
  obtain ⟨row, hrow, hc⟩ := h.cell
  obtain ⟨row', hrow', hc'⟩ := h'.cell
  have hle := h.first _ _ _ _ hrow' hc' h'.refused
  have hge := h'.first _ _ _ _ hrow hc h.refused
  obtain rfl : state = state' := by omega
  obtain rfl : column = column' := by omega
  obtain rfl := Option.some.inj (hrow.symm.trans hrow')
  exact ⟨rfl, rfl, Option.some.inj (hc.symm.trans hc')⟩

theorem isOver_of_getElem? (hover : ∀ row ∈ rows, ∀ c ∈ row, c.IsOver productions) {row : List Cell}
    (hrow : rows[state]? = some row) (hc : row[column]? = some c) : c.IsOver productions :=
  hover row (List.mem_of_getElem? hrow) c (List.mem_of_getElem? hc)

/-- There is no conflict in the tables exactly if all cells are allowed. -/
theorem conflict?_eq_none_iff (hover : ∀ row ∈ rows, ∀ c ∈ row, c.IsOver productions) :
    conflict? productions rows = none ↔ ∀ row ∈ rows, ∀ c ∈ row, c.IsAllowed productions := by
  constructor
  · intro h row hrow c hc
    obtain ⟨state, hstate⟩ := List.mem_iff_getElem?.1 hrow
    obtain ⟨column, hcolumn⟩ := List.mem_iff_getElem?.1 hc
    exact (Cell.conflict?_eq_none_iff (hover row hrow c hc)).1 (conflict?_eq_none h hstate hcolumn)
  · intro hall
    cases h : conflict? productions rows with
    | none => rfl
    | some x =>
      obtain ⟨row, hrow, hc, hkind, -⟩ := conflict?_eq_some h
      have hallowed := hall row (List.mem_of_getElem? hrow) x.cell (List.mem_of_getElem? hc)
      exact absurd hallowed
        ((Cell.conflict?_eq_some_iff (isOver_of_getElem? hover hrow hc)).1 hkind).1

/-- The conflict that is found is in the first cell that is not allowed. -/
theorem conflict?_eq_some_iff (hover : ∀ row ∈ rows, ∀ c ∈ row, c.IsOver productions)
    {x : Conflict} : conflict? productions rows = some x ↔
      IsFirstRefused productions rows x.state x.column x.cell ∧ x.cell.HasKind x.kind := by
  have hsound : ∀ y : Conflict, conflict? productions rows = some y →
      IsFirstRefused productions rows y.state y.column y.cell ∧ y.cell.HasKind y.kind := by
    intro y h
    obtain ⟨row, hrow, hc, hconflict, hfirst⟩ := conflict?_eq_some h
    obtain ⟨hnot, hkind⟩ :=
      (Cell.conflict?_eq_some_iff (isOver_of_getElem? hover hrow hc)).1 hconflict
    refine ⟨⟨⟨row, hrow, hc⟩, hnot, fun state' row' column' c' hrow' hc' hnot' => ?_⟩, hkind⟩
    exact hfirst state' row' column' c' hrow' hc' fun hnone =>
      hnot' ((Cell.conflict?_eq_none_iff (isOver_of_getElem? hover hrow' hc')).1 hnone)
  refine ⟨hsound x, fun ⟨hfirst, hkind⟩ => ?_⟩
  cases h : conflict? productions rows with
  | none =>
    -- a table without a conflict has no cell that is refused
    obtain ⟨row, hrow, hc⟩ := hfirst.cell
    exact absurd ((conflict?_eq_none_iff hover).1 h row (List.mem_of_getElem? hrow) x.cell
      (List.mem_of_getElem? hc)) hfirst.refused
  | some y =>
    -- and of those that are refused only one is the first
    obtain ⟨hfirst', hkind'⟩ := hsound y h
    obtain ⟨hstate, hcolumn, hcell⟩ := hfirst'.unique hfirst
    rw [hcell] at hkind'
    have hsame := hkind'.unique hkind
    obtain ⟨kind, state, column, cell⟩ := x
    obtain ⟨kind', state', column', cell'⟩ := y
    subst hstate hcolumn hcell hsame
    rfl

end Tables

namespace Automaton

variable {a : Automaton} {rows : List (List Cell)}

/-- Tables are valid exactly if all cells are allowed. -/
theorem validate_eq_ok_iff (hover : ∀ row ∈ rows, ∀ c ∈ row, c.IsOver a.productions) :
    a.validate rows = .ok () ↔ ∀ row ∈ rows, ∀ c ∈ row, c.IsAllowed a.productions := by
  rw [← Tables.conflict?_eq_none_iff hover]
  unfold validate
  cases Tables.conflict? a.productions rows with
  | none => exact iff_of_true rfl rfl
  | some x => exact iff_of_false nofun nofun

/-- The error shows the first cell that is not allowed, with the name of its terminal. -/
theorem validate_eq_error_iff (hover : ∀ row ∈ rows, ∀ c ∈ row, c.IsOver a.productions)
    {e : BuildError} : a.validate rows = .error e ↔ ∃ state column c kind,
      Tables.IsFirstRefused a.productions rows state column c ∧ c.HasKind kind ∧
        e = .tableConflict kind state (a.nameOf (a.nonterminals + column)) c := by
  unfold validate
  constructor
  · intro h
    cases hx : Tables.conflict? a.productions rows with
    | none =>
      rw [hx] at h
      exact nomatch h
    | some x =>
      rw [hx] at h
      obtain ⟨hfirst, hkind⟩ := (Tables.conflict?_eq_some_iff hover).1 hx
      exact ⟨x.state, x.column, x.cell, x.kind, hfirst, hkind, (Except.error.inj h).symm⟩
  · rintro ⟨state, column, c, kind, hfirst, hkind, rfl⟩
    have hx : Tables.conflict? a.productions rows = some ⟨kind, state, column, c⟩ :=
      (Tables.conflict?_eq_some_iff hover).2 ⟨hfirst, hkind⟩
    rw [hx]
    rfl

/-- The check of a table over the productions, whatever its cells are, passes if and only if all cells
are allowed: those with two or more actions hold nothing but reductions, and at most one of these,
counted as often as it is listed, is of a production without a guard.
If it does not pass, the error is that of the first cell that is not allowed, by state and then by
column: it tells acceptance before a shift and a shift before reductions, the name of the terminal of the
column, and the whole cell, whose actions are listed in the text of the error, as those of no other cell
are.  In a table that has passed, a parse finds only cells that are empty, accept, shift, or hold
reductions. -/
theorem validate_exact (a : Automaton) (rows : List (List Cell))
    (hover : ∀ row ∈ rows, ∀ c ∈ row, c.IsOver a.productions) :
    (a.validate rows = .ok () ↔ ∀ row ∈ rows, ∀ c ∈ row, c.IsAllowed a.productions) ∧
      (∀ e, a.validate rows = .error e ↔ ∃ state column c kind,
        Tables.IsFirstRefused a.productions rows state column c ∧ c.HasKind kind ∧
          e = .tableConflict kind state (a.nameOf (a.nonterminals + column)) c) ∧
      (∀ e, a.validate rows = .error e → ∃ state column c, ∃ kind : ConflictKind,
        Tables.IsFirstRefused a.productions rows state column c ∧
          e.message = kind.render ++ " conflict in state " ++ toString state ++ " on " ++
            Text.quoted (a.nameOf (a.nonterminals + column)) ++ ": " ++
              String.intercalate ", " (c.map Action.render) ∧
          ∀ c' : Cell, c'.render = String.intercalate ", " (c.map Action.render) → c' = c) ∧
      (a.validate rows = .ok () → ∀ g : Grammar, g.tables.map (·.actions) = rows →
        ∀ state terminal, (g.cell state terminal).IsDecided) := by
  refine ⟨validate_eq_ok_iff hover, fun e => validate_eq_error_iff hover, fun e he => ?_,
    fun hok g hg state terminal => ?_⟩
  · obtain ⟨state, column, c, kind, hfirst, -, rfl⟩ := (validate_eq_error_iff hover).1 he
    exact ⟨state, column, c, kind, hfirst, rfl, fun c' hc' => Cell.render_injective hc'⟩
  · have hnone := conflict?_eq_none_of_validate hok
    rw [← hg] at hnone
    exact Tables.isDecided_cell hnone _ _

/-- Two productions, of which the second has a guard. -/
def onceGuarded : Automaton where
  productions := [{ lhs := 0, rhs := [] }, { lhs := 0, rhs := [], guarded := true }]
  names := SymbolTable.empty.addAll ["S", "a", "b"]
  nonterminals := 1
  follow := []
  states := []

/-- A reduction without a guard may stand beside one with a guard, but not beside itself. -/
theorem validate_exact_onceGuarded :
    onceGuarded.validate [[[.reduce 0, .reduce 1]]] = .ok () ∧
    onceGuarded.validate [[[.reduce 0, .reduce 1], [.reduce 0, .reduce 1, .reduce 0]]] =
      .error (.tableConflict .reduceReduce 0 "b" [.reduce 0, .reduce 1, .reduce 0]) := by
  have hover : Cell.IsOver onceGuarded.productions [.reduce 0, .reduce 1, .reduce 0] := by
    simp [Cell.IsOver, onceGuarded]
  have hover' : Cell.IsOver onceGuarded.productions [.reduce 0, .reduce 1] :=
    fun p hp => hover p (List.mem_append_left [Action.reduce 0] hp)
  have hallowed : Cell.IsAllowed onceGuarded.productions [.reduce 0, .reduce 1] :=
    fun _ => ⟨by simp, by decide⟩
  constructor
  · refine (validate_exact onceGuarded _ ?_).1.2 ?_
    · exact List.forall_mem_singleton.2 (List.forall_mem_singleton.2 hover')
    · exact List.forall_mem_singleton.2 (List.forall_mem_singleton.2 hallowed)
  · refine ((validate_exact onceGuarded _ ?_).2.1 _).2
      ⟨0, 1, _, .reduceReduce, ⟨⟨_, rfl, rfl⟩, ?_, ?_⟩, .reduceReduce (by decide) (by simp), rfl⟩
    · exact List.forall_mem_singleton.2
        (List.forall_mem_cons.2 ⟨hover', List.forall_mem_singleton.2 hover⟩)
    · -- two reductions of the unguarded production are one too many
      intro h
      exact absurd (h (by decide)).2 (by decide)
    · intro state row column c hrow hc hrefused
      -- the cell before the refused one is allowed
      match state, column with
      | state + 1, _ => exact .inl (Nat.succ_pos state)
      | 0, column + 1 => exact .inr ⟨rfl, Nat.le_add_left 1 column⟩
      | 0, 0 =>
        obtain rfl := Option.some.inj hrow
        obtain rfl := Option.some.inj hc
        exact absurd hallowed hrefused

end Automaton

end GuardedGrammar
