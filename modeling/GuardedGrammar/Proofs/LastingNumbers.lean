/-
  A name keeps its number.

  Names are entered one after the other, new ones and known ones in any order, and every call answers
  with a number.  A table only ever grows at its end (`prefix_names_addAll`), so that whatever can be
  looked up in it can be looked up ever after, with the same answer (`keeps_of_prefix`); a new name gets
  the number of names before it.  So the number of a name is the number of different names that were
  entered before it came for the first time (`id?_addAll_of_first`), and the answer to a call is what
  looking the name up gives at any later time (`map_some_enterAll`).

  Main statement: `enterAll_numbers_for_good`.
-/
import GuardedGrammar.Proofs.Numbering
import Mathlib.Data.Finset.Card

namespace GuardedGrammar

namespace SymbolTable

/-! ## Calls and their answers -/

/-- Enters names one after the other; the answers come in the order of the names. -/
def enterAll (t : SymbolTable) : List String → List Nat × SymbolTable
  | [] => ([], t)
  | name :: rest =>
    let (id, t) := t.enter name
    let (ids, t) := t.enterAll rest
    (id :: ids, t)

/-! A name that is known keeps its number, and the table stays as it is; a new name gets the next
number, and is added. -/

theorem enter_of_id?_eq_some {t : SymbolTable} {name : String} {id : Nat} (h : t.id? name = some id) :
    t.enter name = (id, t) := by
  rw [enter, h]

theorem enter_of_id?_eq_none {t : SymbolTable} {name : String} (h : t.id? name = none) :
    t.enter name = (t.size, t.add name) := by
  rw [enter, h]

/-- The answer is the number of the name, and the name is in the table afterwards. -/
theorem enter_eq (t : SymbolTable) (name : String) : t.enter name = (t.idOf name, t.add name) := by
  by_cases h : name ∈ t.names
  · rw [enter_of_id?_eq_some (id?_eq_some_idOf h), add_of_mem h]
  · rw [enter_of_id?_eq_none (id?_eq_none h), idOf_of_notMem h]

/-- The table holds all names that have been entered. -/
theorem snd_enterAll (t : SymbolTable) (names : List String) :
    (t.enterAll names).2 = t.addAll names := by
  induction names generalizing t with
  | nil => rfl
  | cons name rest ih =>
    show ((t.enter name).2.enterAll rest).2 = (t.add name).addAll rest
    rw [ih, enter_eq]

theorem fst_enterAll_cons (t : SymbolTable) (name : String) (rest : List String) :
    (t.enterAll (name :: rest)).1 = t.idOf name :: ((t.add name).enterAll rest).1 := by
  show (t.enter name).1 :: ((t.enter name).2.enterAll rest).1 = _
  rw [enter_eq]

/-! ## Nothing that is known changes -/

/-- What is found in the one table is found in the other, in both directions of looking up. -/
structure Keeps (t u : SymbolTable) : Prop where
  id : ∀ name id, t.id? name = some id → u.id? name = some id
  name : ∀ id name, t.name? id = some name → u.name? id = some name

/-- Names keep their numbers where others come behind them. -/
theorem keeps_of_prefix {t u : SymbolTable} (h : t.names <+: u.names) : Keeps t u := by
  have hname : ∀ id name, t.name? id = some name → u.name? id = some name := by
    intro id name hget
    obtain ⟨rest, hrest⟩ := h
    have hlt : id < t.names.length := (List.getElem?_eq_some_iff.1 hget).1
    rw [name?, ← hrest, List.getElem?_append_left hlt]
    exact hget
  refine ⟨fun name id hid => ?_, hname⟩
  rw [id?_eq_some_iff] at hid ⊢
  exact hname id name hid

/-- Whatever is added comes behind what is there. -/
theorem keeps_addAll (t : SymbolTable) (names : List String) : Keeps t (t.addAll names) :=
  keeps_of_prefix (prefix_names_addAll t names)

theorem id?_add_self (t : SymbolTable) (name : String) : (t.add name).id? name = some (t.idOf name) := by
  rw [id?_eq_some_iff_idOf]
  exact ⟨(mem_names_add t name name).2 (.inr rfl), idOf_add_self t name⟩

/-- The answer to each call is the number that the name has when all calls have been made. -/
theorem map_some_enterAll (t : SymbolTable) (names : List String) :
    (t.enterAll names).1.map some = names.map (t.addAll names).id? := by
  induction names generalizing t with
  | nil => rfl
  | cons name rest ih =>
    -- the calls behind the first leave the number of its name alone
    have hfirst : (t.addAll (name :: rest)).id? name = some (t.idOf name) :=
      (keeps_addAll (t.add name) rest).id _ _ (id?_add_self t name)
    rw [fst_enterAll_cons, List.map_cons, List.map_cons, hfirst, ih]
    rfl

/-! ## Which number a name has -/

/-- A table from nothing has the names that were entered, each of them once. -/
theorem size_addAll_empty (names : List String) : (addAll ∅ names).size = names.toFinset.card := by
  have hsame : (addAll ∅ names).names.toFinset = names.toFinset := by
    ext name
    rw [List.mem_toFinset, List.mem_toFinset, mem_names_addAll]
    exact or_iff_right List.not_mem_nil
  rw [← hsame, List.toFinset_card_of_nodup (addAll ∅ names).nodup]
  rfl

/-- A name has the number of different names that were entered before it. -/
theorem id?_addAll_of_first {before : List String} {name : String} (h : name ∉ before)
    (after : List String) :
    (addAll ∅ (before ++ name :: after)).id? name = some before.toFinset.card := by
  have hnew : name ∉ (addAll ∅ before).names := by
    rw [mem_names_addAll]
    exact fun hmem => hmem.elim List.not_mem_nil h
  have hall : addAll ∅ (before ++ name :: after) = ((addAll ∅ before).add name).addAll after := by
    rw [addAll_append]
    rfl
  have hentered := id?_add_self (addAll ∅ before) name
  rw [idOf_of_notMem hnew, size_addAll_empty] at hentered
  rw [hall]
  exact (keeps_addAll _ after).id _ _ hentered

/-- The names in order are those of the numbers from zero on. -/
theorem map_some_names (t : SymbolTable) : t.names.map some = (List.range t.size).map t.name? := by
  refine List.ext_getElem? fun id => ?_
  rw [List.getElem?_map, List.getElem?_map]
  -- numbers below the size have names, and there are no others
  by_cases h : id < t.size
  · have hname : t.names[id]? = some t.names[id] := List.getElem?_eq_getElem h
    rw [hname, List.getElem?_range h]
    exact congrArg some hname.symm
  · have hrange : (List.range t.size)[id]? = none :=
      List.getElem?_eq_none (by rwa [List.length_range, ← Nat.not_lt])
    have hname : t.names[id]? = none := List.getElem?_eq_none (Nat.le_of_not_lt h)
    rw [hrange, hname]
    rfl

/-- The table holds the names of a sequence: each name once, numbered from zero on without gaps, in the
order in which they come for the first time; numbers lead back to names, and the list of the names has
each name at its number. -/
structure IsNumberingOf (t : SymbolTable) (names : List String) : Prop where
  size : t.size = names.toFinset.card
  dense : ∀ id, id < t.size ↔ ∃ name, t.id? name = some id
  first : ∀ before name after, names = before ++ name :: after → name ∉ before →
    t.id? name = some before.toFinset.card
  back : ∀ name id, t.id? name = some id ↔ t.name? id = some name
  contains : ∀ name, t.contains name = true ↔ name ∈ names
  listed : t.names.map some = (List.range t.size).map t.name?

/-- A table that names are added to from nothing is the numbering of these names. -/
theorem isNumberingOf_addAll (names : List String) : IsNumberingOf (addAll ∅ names) names where
  size := size_addAll_empty names
  dense id := (exists_id?_eq_some_iff _ id).symm
  first := by
    rintro before name after rfl hnew
    exact id?_addAll_of_first hnew after
  back := id?_eq_some_iff _
  contains name := by
    rw [contains, List.contains_iff_mem, mem_names_addAll]
    exact or_iff_right List.not_mem_nil
  listed := map_some_names _

/-- Names that are entered one after the other into a new table are numbered in the order in which they
come for the first time.  Each call answers with the number that its name has when all calls have been
made; a name that is known keeps its number and leaves the table as it is; and whatever calls follow,
every name keeps its number and every number its name. -/
theorem enterAll_numbers_for_good (names : List String) :
    ∃ answers t, enterAll ∅ names = (answers, t) ∧ t.IsNumberingOf names ∧
      answers.map some = names.map t.id? ∧
      (∀ name id, t.id? name = some id → t.enter name = (id, t)) ∧
      ∀ later, t.Keeps (t.enterAll later).2 := by
  refine ⟨_, addAll ∅ names, Prod.ext rfl (snd_enterAll ∅ names), isNumberingOf_addAll names,
    map_some_enterAll ∅ names, fun name id => enter_of_id?_eq_some, fun later => ?_⟩
  rw [snd_enterAll]
  exact keeps_addAll _ later

example : enterAll ∅ ["a", "b", "c", "a", "d", "b"] =
    ([0, 1, 2, 0, 3, 1], ⟨["a", "b", "c", "d"], by decide⟩) := by decide

end SymbolTable

end GuardedGrammar
