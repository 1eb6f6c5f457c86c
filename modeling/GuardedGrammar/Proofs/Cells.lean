/-
  What a cell holds.

  Entering a reduction either leaves a cell as it is, adds the reduction at the end, or lets it take
  the place of one without a guard (`receive_cases`).  In each case the reduction is *covered*
  afterwards: the cell accepts, or holds the reduction, or holds another one without a guard in its
  place; and what is covered stays covered, whatever is entered later (`Covers.receive`).

  A cell without a conflict is empty, accepts, shifts, or holds reductions only
  (`isDecided_of_conflict?_eq_none`).  The conflict of a table is the first of a cell, by state and then
  by column (`Tables.conflict?_eq_some`).
-/
import GuardedGrammar.Table.Conflict
import Mathlib.Data.List.Nodup

namespace GuardedGrammar

namespace Cell

variable {productions : List Production} {c : Cell} {a : Action} {p q : Nat}

/-! ## Replacing an action -/

/-- What is in a cell after a replacement was there before, or has been put there. -/
theorem mem_of_mem_replace {b d : Action} (h : a ∈ c.replace b d) : a ∈ c ∨ a = d := by
  induction c with
  | nil => exact absurd h List.not_mem_nil
  | cons e c ih =>
    rw [List.replace_cons] at h
    split at h
    · exact (List.mem_cons.1 h).symm.imp_left (List.mem_cons_of_mem e)
    · rcases List.mem_cons.1 h with rfl | h
      · exact .inl List.mem_cons_self
      · exact (ih h).imp_left (List.mem_cons_of_mem e)

/-- All other actions stay. -/
theorem mem_replace_of_ne {b d : Action} (h : a ∈ c) (hne : a ≠ b) : a ∈ c.replace b d := by
  induction c with
  | nil => exact absurd h List.not_mem_nil
  | cons e c ih =>
    rw [List.replace_cons]
    split
    · rename_i he
      rcases List.mem_cons.1 h with rfl | h
      · exact absurd (beq_iff_eq.1 he).symm hne
      · exact List.mem_cons_of_mem d h
    · rcases List.mem_cons.1 h with rfl | h
      · exact List.mem_cons_self
      · exact List.mem_cons_of_mem e (ih h)

/-- If there is something to be replaced, then what replaces it is in the cell. -/
theorem mem_replace_self {b d : Action} (h : b ∈ c) : d ∈ c.replace b d := by
  induction c with
  | nil => exact absurd h List.not_mem_nil
  | cons e c ih =>
    rw [List.replace_cons]
    split
    · exact List.mem_cons_self
    · rename_i he
      rcases List.mem_cons.1 h with rfl | h
      · exact absurd he (by simp)
      · exact List.mem_cons_of_mem e (ih h)

/-! ## Reductions without a guard -/

/-- Nothing but a reduction counts as unguarded. -/
theorem exists_reduce_of_isUnguarded (h : a.isUnguarded productions = true) :
    ∃ p, a = .reduce p := by
  cases a with
  | shift _ => exact nomatch h
  | reduce p => exact ⟨p, rfl⟩
  | accept => exact nomatch h

/-- The reduction without a guard that is found is in the cell. -/
theorem unguarded?_eq_some (h : c.unguarded? productions = some q) :
    .reduce q ∈ c ∧ (Action.reduce q).isUnguarded productions = true := by
  obtain ⟨a, ha, hq⟩ := Option.bind_eq_some_iff.1 h
  have hun := List.find?_some ha
  obtain ⟨r, rfl⟩ := exists_reduce_of_isUnguarded hun
  obtain rfl : r = q := Option.some.inj hq
  exact ⟨List.mem_of_find?_eq_some ha, hun⟩

/-- If none is found, then there is none. -/
theorem unguarded?_eq_none (h : c.unguarded? productions = none) (ha : a ∈ c) :
    a.isUnguarded productions = false := by
  rw [unguarded?, Option.bind_eq_none_iff] at h
  cases hf : c.find? (·.isUnguarded productions) with
  | none =>
    have := List.find?_eq_none.1 hf a ha
    simpa using this
  | some b =>
    -- only reductions count as unguarded, so something found is something reduced
    obtain ⟨r, rfl⟩ := exists_reduce_of_isUnguarded (List.find?_some hf)
    exact nomatch h _ hf

/-! ## Entering a reduction -/

/-- The three things that can become of a cell, and when. -/
theorem receive_cases (productions : List Production) (c : Cell) (p : Nat) :
    (c.receive productions p = c ∧ (.accept ∈ c ∨ .reduce p ∈ c ∨
      (Action.reduce p).isUnguarded productions = true ∧
        ∃ q, .reduce q ∈ c ∧ (Action.reduce q).isUnguarded productions = true ∧
          lengthOf productions p < lengthOf productions q)) ∨
    (c.receive productions p = c ++ [.reduce p] ∧
      ((Action.reduce p).isUnguarded productions = true →
        ∀ a ∈ c, a.isUnguarded productions = false) ∧ .accept ∉ c ∧ .reduce p ∉ c) ∨
    (∃ q, c.receive productions p = c.replace (.reduce q) (.reduce p) ∧ .reduce q ∈ c ∧
      (Action.reduce q).isUnguarded productions = true ∧
      (Action.reduce p).isUnguarded productions = true ∧
      lengthOf productions q ≤ lengthOf productions p ∧ .accept ∉ c ∧ .reduce p ∉ c) := by
  unfold receive admission
  by_cases hhas : (c.contains .accept || c.contains (.reduce p)) = true
  · rw [if_pos hhas]
    rw [Bool.or_eq_true, List.contains_iff_mem, List.contains_iff_mem] at hhas
    exact .inl ⟨rfl, hhas.imp_right .inl⟩
  · -- the reduction is new, and the cell does not accept
    rw [if_neg hhas]
    rw [Bool.or_eq_true, List.contains_iff_mem, List.contains_iff_mem, not_or] at hhas
    -- only reductions without a guard compete with one another
    by_cases hun : (Action.reduce p).isUnguarded productions = true
    · rw [hun, if_neg (by decide)]
      cases hfind : c.unguarded? productions with
      | none => exact .inr (.inl ⟨rfl, fun _ a ha => unguarded?_eq_none hfind ha, hhas⟩)
      | some q =>
        obtain ⟨hq, hqun⟩ := unguarded?_eq_some hfind
        dsimp only
        -- the longer right-hand side stays, and of two of the same length the later one
        by_cases hle : lengthOf productions q ≤ lengthOf productions p
        · rw [if_pos hle]
          exact .inr (.inr ⟨q, rfl, hq, hqun, rfl, hle, hhas⟩)
        · rw [if_neg hle]
          exact .inl ⟨rfl, .inr (.inr ⟨rfl, q, hq, hqun, Nat.lt_of_not_le hle⟩)⟩
    · rw [Bool.not_eq_true] at hun
      rw [hun, if_pos (by decide)]
      exact .inr (.inl ⟨rfl, fun h => (nomatch h), hhas⟩)

/-- Nothing but the reduction is new. -/
theorem mem_of_mem_receive (h : a ∈ c.receive productions p) : a ∈ c ∨ a = .reduce p := by
  rcases receive_cases productions c p with ⟨he, -⟩ | ⟨he, -⟩ | ⟨q, he, -⟩
  · rw [he] at h
    exact .inl h
  · rw [he, List.mem_append, List.mem_singleton] at h
    exact h
  · rw [he] at h
    exact mem_of_mem_replace h

/-- Nothing but a reduction without a guard gives way. -/
theorem mem_receive_of_mem (h : a ∈ c) (ha : a.isUnguarded productions = false) :
    a ∈ c.receive productions p := by
  rcases receive_cases productions c p with ⟨he, -⟩ | ⟨he, -⟩ | ⟨q, he, -, hq, -⟩
  · rw [he]
    exact h
  · rw [he]
    exact List.mem_append_left _ h
  · rw [he]
    refine mem_replace_of_ne h ?_
    rintro rfl
    rw [hq] at ha
    exact nomatch ha

/-! ## Covered reductions -/

/-- The cell takes care of a reduction: it accepts, it holds the reduction, or the reduction has no
    guard and the cell holds another one without. -/
def Covers (productions : List Production) (c : Cell) (p : Nat) : Prop :=
  .accept ∈ c ∨ .reduce p ∈ c ∨ ((Action.reduce p).isUnguarded productions = true ∧
    ∃ q, .reduce q ∈ c ∧ (Action.reduce q).isUnguarded productions = true)

/-- Among the reductions without a guard, one stays in the cell, whatever is entered. -/
theorem exists_unguarded_receive (p : Nat) (h : .reduce q ∈ c)
    (hq : (Action.reduce q).isUnguarded productions = true) :
    ∃ r, .reduce r ∈ c.receive productions p ∧
      (Action.reduce r).isUnguarded productions = true := by
  rcases receive_cases productions c p with ⟨he, -⟩ | ⟨he, -⟩ | ⟨r, he, hr, -, hp, -⟩
  · exact ⟨q, by rwa [he], hq⟩
  · exact ⟨q, by rw [he]; exact List.mem_append_left _ h, hq⟩
  · exact ⟨p, by rw [he]; exact mem_replace_self hr, hp⟩

/-- A reduction that is entered is covered. -/
theorem covers_receive_self (productions : List Production) (c : Cell) (p : Nat) :
    Covers productions (c.receive productions p) p := by
  rcases receive_cases productions c p with ⟨he, h⟩ | ⟨he, -⟩ | ⟨r, he, hr, -⟩
  · rw [he]
    rcases h with ha | hp | ⟨hp, q, hq, hun, -⟩
    · exact .inl ha
    · exact .inr (.inl hp)
    · exact .inr (.inr ⟨hp, q, hq, hun⟩)
  · rw [he]
    exact .inr (.inl (List.mem_append_right _ List.mem_cons_self))
  · rw [he]
    exact .inr (.inl (mem_replace_self hr))

/-- What is covered stays covered when another reduction is entered. -/
theorem Covers.receive (h : Covers productions c p) (q : Nat) :
    Covers productions (c.receive productions q) p := by
  rcases h with ha | hp | ⟨hp, r, hr, hun⟩
  · exact .inl (mem_receive_of_mem ha rfl)
  · -- the reduction itself may have to give way, but only to one like it
    by_cases hun : (Action.reduce p).isUnguarded productions = true
    · exact .inr (.inr ⟨hun, exists_unguarded_receive q hp hun⟩)
    · exact .inr (.inl (mem_receive_of_mem hp (eq_false_of_ne_true hun)))
  · exact .inr (.inr ⟨hp, exists_unguarded_receive q hr hun⟩)

/-- A cell that holds more covers more. -/
theorem Covers.mono {d : Cell} (h : Covers productions c p) (hsub : ∀ a ∈ c, a ∈ d) :
    Covers productions d p := by
  rcases h with ha | hp | ⟨hp, r, hr, hun⟩
  · exact .inl (hsub _ ha)
  · exact .inr (.inl (hsub _ hp))
  · exact .inr (.inr ⟨hp, r, hsub _ hr, hun⟩)

/-! ## Entering any other action -/

/-- An action that is there already is not entered a second time. -/
theorem mem_enter {b : Action} : a ∈ c.enter b ↔ a ∈ c ∨ a = b := by
  unfold enter
  split
  · rename_i hb
    constructor
    · exact .inl
    · rintro (h | rfl)
      · exact h
      · exact List.contains_iff_mem.1 hb
  · rw [List.mem_append, List.mem_singleton]

/-! ## Cells without a conflict -/

/-- The cells that a parse can act on. -/
inductive IsDecided : Cell → Prop
  | empty : IsDecided []
  | accept : IsDecided [.accept]
  | shift (state : Nat) : IsDecided [.shift state]
  | reductions (p : Nat) (ps : List Nat) : IsDecided ((p :: ps).map .reduce)

/-- A cell that neither accepts nor shifts holds reductions only. -/
theorem exists_map_reduce_of_forall (haccept : .accept ∉ c) (hshift : ∀ j, .shift j ∉ c) :
    ∃ ps : List Nat, c = ps.map .reduce := by
  induction c with
  | nil => exact ⟨[], rfl⟩
  | cons a c ih =>
    obtain ⟨ps, rfl⟩ := ih (fun h => haccept (List.mem_cons_of_mem a h))
      (fun j h => hshift j (List.mem_cons_of_mem a h))
    cases a with
    | shift j => exact absurd List.mem_cons_self (hshift j)
    | accept => exact absurd List.mem_cons_self haccept
    | reduce p => exact ⟨p :: ps, rfl⟩

/-- What no conflict is found in has one action at most, or reductions only. -/
theorem isDecided_of_conflict?_eq_none (h : c.conflict? productions = none) : c.IsDecided := by
  unfold conflict? at h
  split at h
  · rename_i hlen
    match c, hlen with
    | [], _ => exact .empty
    | [.accept], _ => exact .accept
    | [.shift j], _ => exact .shift j
    | [.reduce p], _ => exact .reductions p []
  · -- with two actions or more, neither acceptance nor a shift is among them
    rename_i hlen
    split at h
    · exact nomatch h
    · rename_i haccept
      split at h
      · exact nomatch h
      · rename_i hshift
        have hnoshift : ∀ j, .shift j ∉ c := fun j hj =>
          hshift (List.any_eq_true.2 ⟨_, hj, rfl⟩)
        obtain ⟨ps, rfl⟩ := exists_map_reduce_of_forall
          (fun ha => haccept (List.contains_iff_mem.2 ha)) hnoshift
        cases ps with
        | nil => exact .empty
        | cons p ps => exact .reductions p ps

/-- Next to an action that is not a reduction there is no other. -/
theorem IsDecided.eq_of_mem (h : c.IsDecided) (ha : a ∈ c) (hreduction : a.reduction? = none)
    {b : Action} (hb : b ∈ c) : b = a := by
  cases h with
  | empty => exact absurd ha List.not_mem_nil
  | accept => exact (List.mem_singleton.1 hb).trans (List.mem_singleton.1 ha).symm
  | shift j => exact (List.mem_singleton.1 hb).trans (List.mem_singleton.1 ha).symm
  | reductions p ps =>
    obtain ⟨q, -, rfl⟩ := List.mem_map.1 ha
    exact nomatch hreduction

/-- Actions that are all the same are one at most, if none is listed twice. -/
theorem length_lt_two (h : c.Nodup) (heq : ∀ a ∈ c, ∀ b ∈ c, a = b) : c.length < 2 := by
  match c with
  | [] => exact Nat.zero_lt_two
  | [_] => exact Nat.one_lt_two
  | a :: b :: rest =>
    have hab : a = b := heq a List.mem_cons_self b (List.mem_cons_of_mem a List.mem_cons_self)
    exact absurd (hab ▸ List.mem_cons_self) (List.nodup_cons.1 h).1

/-- A cell has no conflict if acceptance and a shift are alone in it, and at most one of its reductions
is without a guard. -/
theorem conflict?_eq_none (h : c.Nodup) (haccept : .accept ∈ c → ∀ b ∈ c, b = .accept)
    (hshift : ∀ j, .shift j ∈ c → ∀ b ∈ c, b = .shift j)
    (hreduce : ∀ p, .reduce p ∈ c → (Action.reduce p).isUnguarded productions = true →
      ∀ q, .reduce q ∈ c → (Action.reduce q).isUnguarded productions = true → p = q) :
    c.conflict? productions = none := by
  unfold conflict?
  by_cases hlen : c.length < 2
  · rw [if_pos hlen]
  · have halone : ∀ a, a ∈ c → ¬∀ b ∈ c, b = a := fun a _ hall =>
      hlen (length_lt_two h fun b hb d hd => (hall b hb).trans (hall d hd).symm)
    have hnoaccept : ¬c.contains .accept = true := fun ha => by
      have hmem := List.contains_iff_mem.1 ha
      exact halone _ hmem (haccept hmem)
    have hnoshift : ¬c.any Action.isShift = true := fun ha => by
      obtain ⟨a, hmem, hs⟩ := List.any_eq_true.1 ha
      cases a with
      | shift j => exact halone _ hmem (hshift j hmem)
      | reduce _ => exact nomatch hs
      | accept => exact nomatch hs
    -- two reductions without a guard would be the same, and no action is listed twice
    have hcount : ¬1 < c.countP (·.isUnguarded productions) := by
      rw [List.countP_eq_length_filter, Nat.not_lt]
      refine Nat.le_of_lt_succ (length_lt_two (h.filter _) fun a ha b hb => ?_)
      obtain ⟨hac, haun⟩ := List.mem_filter.1 ha
      obtain ⟨hbc, hbun⟩ := List.mem_filter.1 hb
      obtain ⟨p, rfl⟩ := exists_reduce_of_isUnguarded haun
      obtain ⟨q, rfl⟩ := exists_reduce_of_isUnguarded hbun
      rw [hreduce p hac haun q hbc hbun]
    rw [if_neg hlen, if_neg hnoaccept, if_neg hnoshift, if_neg hcount]

/-- A shift and a reduction are in conflict. -/
theorem conflict?_eq_shiftReduce {j : Nat} (haccept : .accept ∉ c) (hj : .shift j ∈ c)
    (hp : .reduce p ∈ c) : c.conflict? productions = some .shiftReduce := by
  have hlen : ¬c.length < 2 := by
    intro hlt
    match c with
    | [] => exact absurd hj List.not_mem_nil
    | [a] =>
      have he := (List.mem_singleton.1 hj).trans (List.mem_singleton.1 hp).symm
      exact nomatch he
  unfold conflict?
  rw [if_neg hlen, if_neg fun h => haccept (List.contains_iff_mem.1 h),
    if_pos (List.any_eq_true.2 ⟨_, hj, rfl⟩)]

end Cell

/-! ## The first conflict of a table -/

/-- What a search over numbered members finds, it finds at the first place where there is something. -/
theorem exists_of_findSome?_zipIdx {α β : Type} {f : α × Nat → Option β} {l : List α} {b : β}
    (h : l.zipIdx.findSome? f = some b) :
    ∃ i a, l[i]? = some a ∧ f (a, i) = some b ∧ ∀ j < i, ∀ a', l[j]? = some a' → f (a', j) = none := by
  obtain ⟨before, ⟨a, i⟩, after, hl, hfound, hnone⟩ := List.findSome?_eq_some_iff.1 h
  -- the numbers are the places
  have hplace : ∀ n : Nat, l.zipIdx[n]? = l[n]?.map fun a => (a, n) := fun n => by
    rw [List.getElem?_zipIdx]
    simp only [Nat.zero_add]
  have hi : l.zipIdx[before.length]? = some (a, i) := by
    rw [hl, List.getElem?_append_right (Nat.le_refl _), Nat.sub_self, List.getElem?_cons_zero]
  rw [hplace] at hi
  obtain ⟨a', ha', he⟩ := Option.map_eq_some_iff.1 hi
  obtain ⟨rfl, rfl⟩ := Prod.mk.inj he
  refine ⟨before.length, a', ha', hfound, fun j hj a'' ha'' => hnone _ ?_⟩
  have hget : l.zipIdx[j]? = some (a'', j) := by rw [hplace, ha'']; rfl
  rw [hl, List.getElem?_append_left hj] at hget
  exact List.mem_of_getElem? hget

namespace Tables

variable {productions : List Production} {rows : List (List Cell)}

/-- A table without a conflict has none in any of its cells. -/
theorem conflict?_eq_none {state : Nat} {row : List Cell} {column : Nat} {c : Cell}
    (h : conflict? productions rows = none) (hrow : rows[state]? = some row)
    (hc : row[column]? = some c) : c.conflict? productions = none := by
  have hrows := List.findSome?_eq_none_iff.1 h (row, state) (List.mem_zipIdx_iff_getElem?.2 hrow)
  have hcells := List.findSome?_eq_none_iff.1 hrows (c, column) (List.mem_zipIdx_iff_getElem?.2 hc)
  exact Option.map_eq_none_iff.1 hcells

/-- The conflict that is found is one, and neither in a row before it nor before it in its own row is
there another. -/
theorem conflict?_eq_some {x : Conflict} (h : conflict? productions rows = some x) :
    ∃ row, rows[x.state]? = some row ∧ row[x.column]? = some x.cell ∧
      x.cell.conflict? productions = some x.kind ∧
      ∀ state row' column c, rows[state]? = some row' → row'[column]? = some c →
        c.conflict? productions ≠ none →
          x.state < state ∨ x.state = state ∧ x.column ≤ column := by
  obtain ⟨state, row, hrow, hfound, hrows⟩ := exists_of_findSome?_zipIdx h
  obtain ⟨column, c, hc, hconflict, hcells⟩ := exists_of_findSome?_zipIdx hfound
  obtain ⟨kind, hkind, rfl⟩ := Option.map_eq_some_iff.1 hconflict
  refine ⟨row, hrow, hc, hkind, fun state' row' column' c' hrow' hc' hsome => ?_⟩
  -- the rows before have no conflict, nor have the cells before in the row itself
  rcases Nat.lt_trichotomy state state' with hlt | rfl | hgt
  · exact .inl hlt
  · obtain rfl := Option.some.inj (hrow.symm.trans hrow')
    refine .inr ⟨rfl, Nat.not_lt.1 fun hgt => hsome ?_⟩
    exact Option.map_eq_none_iff.1 (hcells column' hgt c' hc')
  · have hnone := List.findSome?_eq_none_iff.1 (hrows state' hgt row' hrow') (c', column')
      (List.mem_zipIdx_iff_getElem?.2 hc')
    exact absurd (Option.map_eq_none_iff.1 hnone) hsome

/-- In a table without a conflict there are only cells that a parse can act on, also where there is no
cell. -/
theorem isDecided_cell {tables : Tables}
    (h : conflict? productions (tables.map (·.actions)) = none) (state column : Nat) :
    (tables.cell state column).IsDecided := by
  unfold cell
  cases hrow : tables[state]? with
  | none => exact .empty
  | some row =>
    have hactions : (tables.map (·.actions))[state]? = some row.actions := by
      rw [List.getElem?_map, hrow]
      rfl
    rw [Option.bind_some]
    cases hc : row.actions[column]? with
    | none => exact .empty
    | some c => exact Cell.isDecided_of_conflict?_eq_none (conflict?_eq_none h hactions hc)

end Tables

end GuardedGrammar
