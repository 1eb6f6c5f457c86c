/-
  The numbering of the symbols of a grammar.

  Names are entered into a table one after the other, so a table only ever grows at its end: what was
  entered earlier is a prefix of what is there later, and keeps its numbers.  Since left-hand sides
  are entered before everything else, a symbol is a left-hand side exactly if its number lies below
  the number of left-hand sides (`idOf_lt_size_nonterminalTable_iff`), and since the end marker is
  entered last and no rule mentions it, it has the last number (`idOf_endName`).
-/
import GuardedGrammar.Grammar.Build
import Mathlib.Data.List.Basic

namespace GuardedGrammar

namespace SymbolTable

/-! ## Tables grow at the end -/

/-! Names are put behind those that are there, one by one or in several lots. -/

theorem prefix_names_add (t : SymbolTable) (name : String) : t.names <+: (t.add name).names := by
  rw [names_add]
  split
  · exact List.prefix_rfl
  · exact List.prefix_append _ _

theorem prefix_names_addAll (t : SymbolTable) (names : List String) :
    t.names <+: (t.addAll names).names := by
  induction names generalizing t with
  | nil => exact List.prefix_rfl
  | cons a names ih => exact (prefix_names_add t a).trans (ih (t.add a))

theorem addAll_append (t : SymbolTable) (first second : List String) :
    t.addAll (first ++ second) = (t.addAll first).addAll second :=
  List.foldl_append

/-- The names that are entered are those that were, and those that are given. -/
theorem mem_names_addAll (t : SymbolTable) (names : List String) (n : String) :
    n ∈ (t.addAll names).names ↔ n ∈ t.names ∨ n ∈ names := by
  induction names generalizing t with
  | nil => simp [addAll]
  | cons a names ih =>
    show n ∈ ((t.add a).addAll names).names ↔ _
    rw [ih, mem_names_add, List.mem_cons, or_assoc]

/-! ## Names and numbers -/

/-! A name that has been entered has a number below the size of the table; looking either of the two
up gives the other. A name that has not been entered is not found. -/

theorem idOf_lt_size_iff (t : SymbolTable) (name : String) : t.idOf name < t.size ↔ name ∈ t.names :=
  List.idxOf_lt_length_iff

theorem name?_idOf {t : SymbolTable} {name : String} (h : name ∈ t.names) :
    t.name? (t.idOf name) = some name := by
  have hlt := List.idxOf_lt_length_iff.2 h
  show t.names[t.names.idxOf name]? = some name
  rw [List.getElem?_eq_getElem hlt, List.getElem_idxOf hlt]

theorem id?_eq_some_idOf {t : SymbolTable} {name : String} (h : name ∈ t.names) :
    t.id? name = some (t.idOf name) :=
  (id?_eq_some_iff t name _).2 (name?_idOf h)

theorem id?_eq_none {t : SymbolTable} {name : String} (h : name ∉ t.names) : t.id? name = none := by
  cases hid : t.id? name with
  | none => rfl
  | some id => exact absurd (List.mem_of_getElem? ((id?_eq_some_iff t name id).1 hid)) h

/-- Looking a name up gives its number exactly if the name has been entered. -/
theorem id?_eq_some_iff_idOf (t : SymbolTable) (name : String) (id : Nat) :
    t.id? name = some id ↔ name ∈ t.names ∧ t.idOf name = id := by
  by_cases h : name ∈ t.names
  · rw [id?_eq_some_idOf h, Option.some.injEq]
    exact (and_iff_right h).symm
  · rw [id?_eq_none h]
    exact ⟨fun e => (nomatch e), fun e => absurd e.1 h⟩

/-- The numbers that names have are those below the size of the table. -/
theorem exists_id?_eq_some_iff (t : SymbolTable) (id : Nat) :
    (∃ name, t.id? name = some id) ↔ id < t.size := by
  constructor
  · rintro ⟨name, hname⟩
    rw [id?_eq_some_iff] at hname
    exact (List.getElem?_eq_some_iff.1 hname).1
  · intro hlt
    have hlength : id < t.names.length := hlt
    exact ⟨t.names[id], (id?_eq_some_iff _ _ _).2 (List.getElem?_eq_getElem hlength)⟩

/-- Different names have different numbers, if one of them has been entered. -/
theorem idOf_inj {t : SymbolTable} {a b : String} (ha : a ∈ t.names) (h : t.idOf a = t.idOf b) :
    a = b := by
  have hb : b ∈ t.names := by
    rw [← idOf_lt_size_iff, ← h, idOf_lt_size_iff]
    exact ha
  have := name?_idOf ha
  rw [h, name?_idOf hb] at this
  exact (Option.some.inj this).symm

theorem idOf_of_notMem {t : SymbolTable} {name : String} (h : name ∉ t.names) :
    t.idOf name = t.size :=
  List.idxOf_eq_length h

theorem add_of_mem {t : SymbolTable} {name : String} (h : name ∈ t.names) : t.add name = t :=
  dif_pos h

/-- A name that has just been entered has the number that it had, or was to get. -/
theorem idOf_add_self (t : SymbolTable) (name : String) : (t.add name).idOf name = t.idOf name := by
  by_cases h : name ∈ t.names
  · rw [add_of_mem h]
  · -- a new name comes last, so its number is the size that the table had
    show (t.add name).names.idxOf name = t.idOf name
    rw [names_add, if_neg h, List.idxOf_append_of_notMem h, List.idxOf_cons_self, idOf_of_notMem h]
    rfl

/-- A name keeps its number when other names are entered. -/
theorem idOf_eq_of_names {t u : SymbolTable} (h : t.names <+: u.names) {name : String}
    (hn : name ∈ t.names) : u.idOf name = t.idOf name := by
  obtain ⟨rest, hrest⟩ := h
  show u.names.idxOf name = t.names.idxOf name
  rw [← hrest, List.idxOf_append_of_mem hn]

/-- Below the size of an earlier table stand exactly the names of that table. -/
theorem idOf_lt_size_iff_of_names {t u : SymbolTable} (h : t.names <+: u.names) (name : String) :
    u.idOf name < t.size ↔ name ∈ t.names := by
  constructor
  · intro hlt
    -- at a place of the earlier table, both tables have the same name
    have hle : t.size ≤ u.size := h.length_le
    have hu : name ∈ u.names := (idOf_lt_size_iff u name).1 (Nat.lt_of_lt_of_le hlt hle)
    have hget := name?_idOf hu
    obtain ⟨rest, hrest⟩ := h
    rw [name?, ← hrest, List.getElem?_append_left hlt] at hget
    exact List.mem_of_getElem? hget
  · intro hn
    rw [idOf_eq_of_names h hn, idOf_lt_size_iff]
    exact hn

end SymbolTable

namespace Grammar

variable {rules : List Rule}

/-! ## Left-hand sides and all other names -/

/-- The nonterminals are the left-hand sides. -/
theorem mem_names_nonterminalTable (rules : List Rule) (n : String) :
    n ∈ (nonterminalTable rules).names ↔ ∃ r ∈ rules, r.lhs.name = n := by
  rw [nonterminalTable, SymbolTable.mem_names_addAll, List.mem_map]
  exact or_iff_right (List.not_mem_nil (a := n))

/-- The symbols are those of the rules, and the end marker. -/
theorem mem_names_symbolTable (rules : List Rule) (n : String) :
    n ∈ (symbolTable rules).names ↔
      ((∃ r ∈ rules, r.lhs.name = n) ∨ ∃ r ∈ rules, ∃ s ∈ r.rhs, s.name = n) ∨ n = endName := by
  rw [symbolTable, SymbolTable.mem_names_add, SymbolTable.mem_names_addAll,
    mem_names_nonterminalTable]
  simp only [List.mem_flatMap, List.mem_map]

/-- All names of a rule are numbered. -/
theorem mem_symbolTable_of_mem {r : Rule} (hr : r ∈ rules) {s : Symbol} (hs : s ∈ r.symbols) :
    s.name ∈ (symbolTable rules).names := by
  rw [mem_names_symbolTable]
  rcases List.mem_cons.1 hs with rfl | hs
  · exact .inl (.inl ⟨r, hr, rfl⟩)
  · exact .inl (.inr ⟨r, hr, s, hs, rfl⟩)

/-- The left-hand sides are entered first. -/
theorem prefix_names_symbolTable (rules : List Rule) :
    (nonterminalTable rules).names <+: (symbolTable rules).names :=
  (SymbolTable.prefix_names_addAll _ _).trans (SymbolTable.prefix_names_add _ _)

/-- The numbers below the number of left-hand sides are those of left-hand sides. -/
theorem idOf_lt_size_nonterminalTable_iff (rules : List Rule) (n : String) :
    (symbolTable rules).idOf n < (nonterminalTable rules).size ↔ ∃ r ∈ rules, r.lhs.name = n := by
  rw [SymbolTable.idOf_lt_size_iff_of_names (prefix_names_symbolTable rules),
    mem_names_nonterminalTable]

/-- The end marker comes last if no rule mentions it. -/
theorem idOf_endName (h : ∀ r ∈ rules, ∀ s ∈ r.symbols, s.name ≠ endName) :
    (symbolTable rules).idOf endName = (symbolTable rules).size - 1 := by
  -- none of the names before it is the end marker, so it is put at the end
  have hnew : endName ∉
      ((nonterminalTable rules).addAll (rules.flatMap fun r => r.rhs.map Symbol.name)).names := by
    rw [SymbolTable.mem_names_addAll, mem_names_nonterminalTable, List.mem_flatMap]
    rintro (⟨r, hr, he⟩ | ⟨r, hr, he⟩)
    · exact h r hr r.lhs List.mem_cons_self he
    · obtain ⟨s, hs, he⟩ := List.mem_map.1 he
      exact h r hr s (List.mem_cons_of_mem _ hs) he
  show (symbolTable rules).idOf endName = (symbolTable rules).names.length - 1
  rw [symbolTable, SymbolTable.idOf_add_self, SymbolTable.idOf_of_notMem hnew, SymbolTable.names_add,
    if_neg hnew, List.length_append, List.length_singleton]
  rfl

/-- The end marker is no left-hand side if no rule mentions it. -/
theorem size_nonterminalTable_lt (h : ∀ r ∈ rules, ∀ s ∈ r.symbols, s.name ≠ endName) :
    (nonterminalTable rules).size < (symbolTable rules).size := by
  have hmem : endName ∈ (symbolTable rules).names := (mem_names_symbolTable rules _).2 (.inr rfl)
  have hlt := (SymbolTable.idOf_lt_size_iff _ _).2 hmem
  -- the end marker is numbered too, but not as a left-hand side
  have hge : ¬(symbolTable rules).idOf endName < (nonterminalTable rules).size := by
    rw [idOf_lt_size_nonterminalTable_iff]
    rintro ⟨r, hr, he⟩
    exact h r hr r.lhs List.mem_cons_self he
  omega

end Grammar

end GuardedGrammar
