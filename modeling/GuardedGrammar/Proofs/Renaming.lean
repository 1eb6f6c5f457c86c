/-
  Grammars whose names are other names.

  What a grammar is like depends on which names are the same, and not on what they are.  A renaming gives
  different names to different ones and leaves the reserved ones alone; names are entered into a table
  in the same order under their new names, and so they have the same numbers
  (`SymbolTable.Renamed.addAll`).  From there on everything is worked out from numbers: names come back
  in only where something is reported (`Automaton.validate_withNames`).

  Main statement: `buildsAlike_build`.
-/
import GuardedGrammar.Proofs.Classification
import GuardedGrammar.Proofs.Outcome
import Mathlib.Data.Set.Function

namespace GuardedGrammar

/-- A renaming of some names: no two of them get the same name, and those that are reserved are among
them and keep theirs. -/
structure IsRenaming (f : String → String) (domain : Set String) : Prop where
  injOn : Set.InjOn f domain
  start_mem : startName ∈ domain
  end_mem : endName ∈ domain
  start_eq : f startName = startName
  end_eq : f endName = endName

/-- An error with the names in it renamed. -/
def BuildError.rename (f : String → String) : BuildError → BuildError
  | .emptyGrammar => .emptyGrammar
  | .reservedSymbol name => .reservedSymbol (f name)
  | .tableConflict kind state terminal cell => .tableConflict kind state (f terminal) cell
  | .duplicateGoto state nonterminal first second => .duplicateGoto state (f nonterminal) first second
  | .inconsistent what => .inconsistent what

/-- A rule that has the new names for the old ones, and a condition if the other has one. Indices,
conditions and actions may be what they like. -/
structure Rule.RenamesTo (f : String → String) (r r' : Rule) : Prop where
  lhs : r'.lhs.name = f r.lhs.name
  rhs : r'.rhs.map Symbol.name = r.rhs.map fun s => f s.name
  guarded : r'.isGuarded = r.isGuarded

variable {f : String → String} {domain : Set String}

/-- All names of a rule are renamed, from left to right. -/
theorem Rule.RenamesTo.map_symbols {r r' : Rule} (h : r.RenamesTo f r') :
    r'.symbols.map Symbol.name = (r.symbols.map Symbol.name).map f := by
  rw [Rule.symbols, Rule.symbols, List.map_cons, h.lhs, h.rhs, List.map_cons, List.map_cons,
    List.map_map]
  rfl

/-- Reserved names are told from others under the new names too. -/
theorem IsRenaming.isReserved_eq (hf : IsRenaming f domain) {n : String} (hn : n ∈ domain) :
    Grammar.isReserved (f n) = Grammar.isReserved n := by
  have hstart := hf.injOn.eq_iff hn hf.start_mem
  have hend := hf.injOn.eq_iff hn hf.end_mem
  rw [hf.start_eq] at hstart
  rw [hf.end_eq] at hend
  rw [Bool.eq_iff_iff, Grammar.isReserved_eq_true_iff, Grammar.isReserved_eq_true_iff, hstart, hend]

/-! ## Tables of names -/

namespace SymbolTable

/-- All names of a table have been renamed, and stand in the same order. -/
structure Renamed (f : String → String) (domain : Set String) (t t' : SymbolTable) : Prop where
  within : ∀ n ∈ t.names, n ∈ domain
  names_eq : t'.names = t.names.map f

/-- A name is among some names exactly if its new name is among theirs. -/
theorem mem_map_iff_of_injOn (hf : Set.InjOn f domain) {l : List String}
    (hl : ∀ n ∈ l, n ∈ domain) {n : String} (hn : n ∈ domain) : f n ∈ l.map f ↔ n ∈ l := by
  constructor
  · intro h
    obtain ⟨m, hm, he⟩ := List.mem_map.1 h
    exact hf (hl m hm) hn he ▸ hm
  · exact List.mem_map_of_mem

/-- By induction on the names, of which the first is the one looked for or is not. -/
theorem idxOf_map_of_injOn (hf : Set.InjOn f domain) {l : List String} (hl : ∀ n ∈ l, n ∈ domain)
    {n : String} (hn : n ∈ domain) : (l.map f).idxOf (f n) = l.idxOf n := by
  induction l with
  | nil => rfl
  | cons m l ih =>
    obtain ⟨hm, hothers⟩ := List.forall_mem_cons.1 hl
    rw [List.map_cons]
    by_cases he : m = n
    · rw [he, List.idxOf_cons_self, List.idxOf_cons_self]
    · have hne : f m ≠ f n := fun h => he (hf hm hn h)
      rw [List.idxOf_cons_ne _ hne, List.idxOf_cons_ne _ he, ih hothers]

namespace Renamed

variable {t t' : SymbolTable}

theorem empty (f : String → String) (domain : Set String) : Renamed f domain ∅ ∅ :=
  ⟨fun _ h => absurd h List.not_mem_nil, rfl⟩

/-- Entering a name and its new name keeps the numbering the same. -/
theorem add (hf : Set.InjOn f domain) (h : Renamed f domain t t') {n : String} (hn : n ∈ domain) :
    Renamed f domain (t.add n) (t'.add (f n)) := by
  refine ⟨fun m hm => ?_, ?_⟩
  · rcases (mem_names_add t n m).1 hm with hm | rfl
    · exact h.within m hm
    · exact hn
  · rw [names_add, names_add, h.names_eq]
    by_cases hmem : n ∈ t.names
    · rw [if_pos hmem, if_pos ((mem_map_iff_of_injOn hf h.within hn).2 hmem)]
    · rw [if_neg hmem, if_neg fun he => hmem ((mem_map_iff_of_injOn hf h.within hn).1 he),
        List.map_append, List.map_singleton]

/-- Entering names and their new names keeps the numbering the same. -/
theorem addAll (hf : Set.InjOn f domain) (h : Renamed f domain t t') {names : List String}
    (hnames : ∀ n ∈ names, n ∈ domain) :
    Renamed f domain (t.addAll names) (t'.addAll (names.map f)) := by
  induction names generalizing t t' with
  | nil => exact h
  | cons n names ih =>
    obtain ⟨hn, hothers⟩ := List.forall_mem_cons.1 hnames
    exact ih (h.add hf hn) hothers

/-! As many names have been entered, and a name is found under its new name exactly where it was
found: both have the same number. -/

theorem size_eq (h : Renamed f domain t t') : t'.size = t.size := by
  rw [size, h.names_eq, List.length_map]
  rfl

theorem idOf_eq (hf : Set.InjOn f domain) (h : Renamed f domain t t') {n : String}
    (hn : n ∈ domain) : t'.idOf (f n) = t.idOf n := by
  rw [idOf, h.names_eq]
  exact idxOf_map_of_injOn hf h.within hn

theorem name?_eq (h : Renamed f domain t t') (id : Nat) : t'.name? id = (t.name? id).map f := by
  rw [name?, h.names_eq, List.getElem?_map]
  rfl

theorem id?_eq (hf : Set.InjOn f domain) (h : Renamed f domain t t') {n : String}
    (hn : n ∈ domain) : t'.id? (f n) = t.id? n := by
  refine Option.ext fun id => ?_
  show t'.id? (f n) = some id ↔ t.id? n = some id
  rw [id?_eq_some_iff_idOf, id?_eq_some_iff_idOf, h.idOf_eq hf hn, h.names_eq,
    mem_map_iff_of_injOn hf h.within hn]

end Renamed

end SymbolTable

/-! ## Automata

Rows are filled from numbers, and a name is only looked at for an error. So tables that can be
filled are the same under other names. -/

namespace Automaton

variable {a : Automaton} {row row' : Row} {tables : Tables}

/-- The automaton with other names for its symbols. -/
def withNames (a : Automaton) (names : SymbolTable) : Automaton := { a with names }

variable {names : SymbolTable}

/-! Reductions are entered without a look at the names. Where a nonterminal leads, a name only occurs
in the error, which there is none of. -/

theorem result_enterReductions_withNames (p : Nat) (terminals : List Nat) (row : Row) :
    ((a.withNames names).enterReductions p terminals row).result =
      (a.enterReductions p terminals row).result := by
  induction terminals generalizing row with
  | nil => rfl
  | cons terminal terminals ih => exact ih (a.enterReduction p row terminal)

theorem enterGoto_withNames {state nonterminal target : Nat}
    (h : a.enterGoto state nonterminal target row = .ok row') :
    (a.withNames names).enterGoto state nonterminal target row = .ok row' := by
  unfold enterGoto at h ⊢
  cases hgoto : (row.gotos[nonterminal]?).bind id with
  | none =>
    rw [hgoto] at h
    exact h
  | some first =>
    rw [hgoto] at h
    dsimp only at h ⊢
    by_cases he : first = target
    · rwa [if_pos he] at h ⊢
    · rw [if_neg he] at h
      exact nomatch h

section

variable (hsize : names.size = a.names.size)
include hsize

/-- An item that is entered is entered in the same way under other names. -/
theorem enterItem_withNames {state : Nat} {items : ItemSet} {item : Item}
    (h : (a.enterItem state items row item).result = .ok row') :
    ((a.withNames names).enterItem state items row item).result = .ok row' := by
  cases ho : item.observed? a.productions with
  | none =>
    have ho' : item.observed? (a.withNames names).productions = none := ho
    rw [enterItem, ho] at h
    rw [enterItem, ho']
    dsimp only at h ⊢
    by_cases hstart : item.production = startProduction
    · -- the end marker is told by the number of symbols
      have hend : (a.withNames names).endMarker = a.endMarker := congrArg (· - 1) hsize
      rw [if_pos hstart] at h ⊢
      rw [enterAcceptance, hend]
      exact h
    · rw [if_neg hstart] at h ⊢
      exact (result_enterReductions_withNames _ _ _).trans h
  | some symbol =>
    have ho' : item.observed? (a.withNames names).productions = some symbol := ho
    rw [enterItem, ho] at h
    rw [enterItem, ho']
    dsimp only at h ⊢
    cases htarget : a.target? items symbol with
    | none =>
      rw [htarget] at h
      exact nomatch h
    | some target =>
      have htarget' : (a.withNames names).target? items symbol = some target := htarget
      rw [htarget] at h
      rw [htarget']
      dsimp only at h ⊢
      by_cases hlt : symbol < a.nonterminals
      · rw [if_pos hlt] at h
        exact (congrArg Traced.result (if_pos hlt)).trans (enterGoto_withNames h)
      · rw [if_neg hlt] at h
        exact (congrArg Traced.result (if_neg hlt)).trans h

/-- Items that are entered are entered in the same way under other names. -/
theorem enterItems_withNames {state : Nat} {items : ItemSet} {those : List Item}
    (h : (a.enterItems state items those row).result = .ok row') :
    ((a.withNames names).enterItems state items those row).result = .ok row' := by
  induction those generalizing row with
  | nil => exact h
  | cons item those ih =>
    obtain ⟨between, hitem, hothers⟩ := (Traced.result_bind_eq_ok_iff _ _ _).1 h
    exact (Traced.result_bind_eq_ok_iff _ _ _).2
      ⟨between, enterItem_withNames hsize hitem, ih hothers⟩

/-- A row that can be filled is the same under other names. -/
theorem row_withNames {state : Nat} {items : ItemSet} (h : (a.row state items).result = .ok row) :
    ((a.withNames names).row state items).result = .ok row := by
  have hterminals : (a.withNames names).terminals = a.terminals := congrArg (· - a.nonterminals) hsize
  rw [Automaton.row, hterminals]
  exact enterItems_withNames hsize h

/-- Tables that can be filled are the same under other names. By induction on the states. -/
theorem rowsFrom_withNames {state : Nat} {states : List ItemSet}
    (h : (a.rowsFrom state states).result = .ok tables) :
    ((a.withNames names).rowsFrom state states).result = .ok tables := by
  induction states generalizing state tables with
  | nil => exact h
  | cons items states ih =>
    obtain ⟨row, hrow, h⟩ := (Traced.result_bind_eq_ok_iff _ _ _).1 h
    obtain ⟨rows, hrows, h⟩ := (Traced.result_bind_eq_ok_iff _ _ _).1 h
    refine (Traced.result_bind_eq_ok_iff _ _ _).2 ⟨row, row_withNames hsize hrow, ?_⟩
    exact (Traced.result_bind_eq_ok_iff _ _ _).2 ⟨rows, ih hrows, h⟩

/-- The tables are the same. -/
theorem tables_withNames (h : a.tables.result = .ok tables) :
    (a.withNames names).tables.result = .ok tables :=
  rowsFrom_withNames hsize h

end

/-- The same cell is complained about, under the new name of its terminal. -/
theorem validate_withNames (hnames : a.names.Renamed f domain names)
    (htables : a.tables.result = .ok tables) :
    (a.withNames names).validate (tables.map (·.actions)) =
      (a.validate (tables.map (·.actions))).mapError (BuildError.rename f) := by
  have hproductions : (a.withNames names).productions = a.productions := rfl
  rw [validate, validate, hproductions]
  cases hconflict : Tables.conflict? a.productions (tables.map (·.actions)) with
  | none => rfl
  | some c =>
    obtain ⟨kind, i, k, cell⟩ := c
    obtain ⟨row, hrow, hc, -⟩ := Tables.conflict?_eq_some hconflict
    obtain ⟨items, t, -, hge, hlt, hcolumn, -⟩ := exists_of_cell htables hrow hc
    -- the column is that of a terminal, so there is a name to tell
    have ht : a.nonterminals + k = t := by
      have hk : k = a.column t := hcolumn.symm
      unfold column at hk
      omega
    have hname : (a.withNames names).nameOf t = f (a.nameOf t) := by
      have hold : a.names.name? t = some a.names.names[t] := List.getElem?_eq_getElem hlt
      rw [nameOf, nameOf]
      show (names.name? t).getD "?" = _
      rw [hnames.name?_eq, hold]
      rfl
    show Except.error (BuildError.tableConflict kind i
      ((a.withNames names).nameOf (a.nonterminals + k)) cell) = _
    rw [ht, hname, ← ht]
    rfl

end Automaton

/-! ## From rules to a grammar -/

namespace Grammar

/-- The grammars have the same productions, sets, states and tables, and their names are renamed. -/
structure RenamesTo (f : String → String) (domain : Set String) (g g' : Grammar) : Prop where
  rules : List.Forall₂ (Rule.RenamesTo f) g.rules g'.rules
  names : g.names.Renamed f domain g'.names
  productions : g'.automaton.productions = g.automaton.productions
  nonterminals : g'.automaton.nonterminals = g.automaton.nonterminals
  first : g'.first = g.first
  follow : g'.automaton.follow = g.automaton.follow
  states : g'.states = g.states
  tables : g'.tables = g.tables

variable {rules rules' : List Rule}

/-- What cannot tell a name from its new name finds the first of the same kind. -/
theorem find?_map_of_forall {p : String → Bool} {l : List String} (h : ∀ n ∈ l, p (f n) = p n) :
    (l.map f).find? p = (l.find? p).map f := by
  induction l with
  | nil => rfl
  | cons n l ih =>
    obtain ⟨hn, hothers⟩ := List.forall_mem_cons.1 h
    rw [List.map_cons, List.find?_cons, List.find?_cons, hn, ih hothers]
    cases p n <;> rfl

/-- The left-hand sides are renamed one by one. -/
theorem leftNames_of_renamesTo (h : List.Forall₂ (Rule.RenamesTo f) rules rules') :
    leftNames rules' = (leftNames rules).map f := by
  induction h with
  | nil => rfl
  | cons hr _ ih => exact congrArg₂ List.cons hr.lhs ih

/-- The names of the right-hand sides are renamed one by one. -/
theorem rightNames_of_renamesTo (h : List.Forall₂ (Rule.RenamesTo f) rules rules') :
    rightNames rules' = (rightNames rules).map f := by
  induction h with
  | nil => rfl
  | @cons r r' rules rules' hr _ ih =>
    have hcons (r : Rule) (rules : List Rule) :
        rightNames (r :: rules) = r.rhs.map Symbol.name ++ rightNames rules := List.flatMap_cons
    rw [hcons, hcons, ih, hr.rhs, List.map_append, List.map_map]
    rfl

section

variable (hf : IsRenaming f domain) (hrules : List.Forall₂ (Rule.RenamesTo f) rules rules')
  (hnames : ∀ r ∈ rules, ∀ s ∈ r.symbols, s.name ∈ domain)
include hf hrules hnames

/-- The nonterminals are numbered in the same way. -/
theorem renamed_nonterminalTable :
    (nonterminalTable rules).Renamed f domain (nonterminalTable rules') := by
  have hleft : ∀ n ∈ leftNames rules, n ∈ domain := by
    intro n hn
    obtain ⟨r, hr, s, hs, rfl⟩ := exists_symbol_of_mem_leftNames hn
    exact hnames r hr s hs
  have hall := (SymbolTable.Renamed.empty f domain).addAll hf.injOn hleft
  rwa [← leftNames_of_renamesTo hrules] at hall

/-- The symbols are numbered in the same way, with the end marker last. -/
theorem renamed_symbolTable : (symbolTable rules).Renamed f domain (symbolTable rules') := by
  have hright : ∀ n ∈ rightNames rules, n ∈ domain := by
    intro n hn
    obtain ⟨r, hr, s, hs, rfl⟩ := exists_symbol_of_mem_rightNames hn
    exact hnames r hr s hs
  have hall := ((renamed_nonterminalTable hf hrules hnames).addAll hf.injOn hright).add hf.injOn
    hf.end_mem
  rwa [← rightNames_of_renamesTo hrules, hf.end_eq] at hall

/-- The productions are the same, since they are made up of numbers. -/
theorem map_encode_eq {t t' : SymbolTable} (ht : t.Renamed f domain t') :
    rules'.map (Rule.encode t') = rules.map (Rule.encode t) := by
  induction hrules with
  | nil => rfl
  | @cons r r' rules rules' hr _ ih =>
    obtain ⟨hfirst, hothers⟩ := List.forall_mem_cons.1 hnames
    have hlhs : t'.idOf r'.lhs.name = t.idOf r.lhs.name := by
      rw [hr.lhs, ht.idOf_eq hf.injOn (hfirst r.lhs List.mem_cons_self)]
    have hrhs : r'.rhs.map (fun s => t'.idOf s.name) = r.rhs.map fun s => t.idOf s.name := by
      have hmap : r'.rhs.map (fun s => t'.idOf s.name) = (r'.rhs.map Symbol.name).map t'.idOf := by
        rw [List.map_map]
        rfl
      rw [hmap, hr.rhs, List.map_map]
      exact List.map_congr_left fun s hs =>
        ht.idOf_eq hf.injOn (hfirst s (List.mem_cons_of_mem _ hs))
    rw [List.map_cons, List.map_cons, ih hothers]
    refine congrArg (· :: _) ?_
    rw [Rule.encode, Rule.encode, hlhs, hrhs, hr.guarded]

/-- Nothing but the names is different. -/
theorem automatonOf_eq_withNames :
    automatonOf rules' = (automatonOf rules).withNames (symbolTable rules') ∧
      firstOf rules' = firstOf rules := by
  have hencode := map_encode_eq hf hrules hnames (renamed_symbolTable hf hrules hnames)
  have hleft := (renamed_nonterminalTable hf hrules hnames).size_eq
  have hsize := (renamed_symbolTable hf hrules hnames).size_eq
  have hfirst : firstOf rules' = firstOf rules := by
    unfold firstOf
    rw [hencode, hleft, hsize]
  refine ⟨?_, hfirst⟩
  unfold automatonOf Automaton.withNames
  rw [hencode, hleft, hsize, hfirst]

/-- The first reserved name is found at the same place. -/
theorem reserved?_of_renamesTo : reserved? rules' = (reserved? rules).map f := by
  have hall : (rules'.flatMap Rule.symbols).map Symbol.name =
      ((rules.flatMap Rule.symbols).map Symbol.name).map f := by
    clear hnames
    induction hrules with
    | nil => rfl
    | cons hr _ ih =>
      rw [List.flatMap_cons, List.flatMap_cons, List.map_append, List.map_append, List.map_append,
        hr.map_symbols, ih]
  -- no other name is given a reserved one
  have hsame : ∀ n ∈ (rules.flatMap Rule.symbols).map Symbol.name,
      isReserved (f n) = isReserved n := by
    intro n hn
    obtain ⟨s, hs, rfl⟩ := List.mem_map.1 hn
    obtain ⟨r, hr, hmem⟩ := List.mem_flatMap.1 hs
    exact hf.isReserved_eq (hnames r hr s hmem)
  rw [reserved?, reserved?, hall]
  exact find?_map_of_forall hsame

end

/-- Two lists of rules lead to the same, up to the names. -/
inductive BuildsAlike (f : String → String) (domain : Set String) :
    Except BuildError Grammar → Except BuildError Grammar → Prop
  | failed (e : BuildError) : BuildsAlike f domain (.error e) (.error (e.rename f))
  | built {g g' : Grammar} (h : g.RenamesTo f domain g') : BuildsAlike f domain (.ok g) (.ok g')

/-- Lists of rules that are the same up to names are assembled alike. -/
theorem buildsAlike_assemble (hf : IsRenaming f domain)
    (hrules : List.Forall₂ (Rule.RenamesTo f) rules rules')
    (hnames : ∀ r ∈ rules, ∀ s ∈ r.symbols, s.name ∈ domain) (hwf : (automatonOf rules).WellFormed) :
    BuildsAlike f domain (assemble rules).result (assemble rules').result := by
  have hsymbols := renamed_symbolTable hf hrules hnames
  obtain ⟨hautomaton, hfirst⟩ := automatonOf_eq_withNames hf hrules hnames
  obtain ⟨tables, htables⟩ := hwf.exists_tables
  have htables' := Automaton.tables_withNames hsymbols.size_eq htables
  have hvalid := Automaton.validate_withNames hsymbols htables
  rw [result_assemble, result_assemble, hautomaton, hfirst, htables, htables']
  show BuildsAlike f domain
    (do (automatonOf rules).validate (tables.map (·.actions))
        pure ⟨rules, firstOf rules, automatonOf rules, tables⟩)
    (do ((automatonOf rules).withNames (symbolTable rules')).validate (tables.map (·.actions))
        pure ⟨rules', firstOf rules, (automatonOf rules).withNames (symbolTable rules'), tables⟩)
  -- what can still fail is the check for conflicts, which reports a name
  rw [hvalid]
  cases (automatonOf rules).validate (tables.map (·.actions)) with
  | error e => exact .failed e
  | ok _ => exact .built ⟨hrules, hsymbols, rfl, rfl, rfl, rfl, rfl, rfl⟩

/-- Rules that differ in their names only, and in what guards and actions do, lead to the same. -/
theorem buildsAlike_build (hf : IsRenaming f domain)
    (hrules : List.Forall₂ (Rule.RenamesTo f) rules rules')
    (hnames : ∀ r ∈ rules, ∀ s ∈ r.symbols, s.name ∈ domain) :
    BuildsAlike f domain (build rules).result (build rules').result := by
  have hreserved := reserved?_of_renamesTo hf hrules hnames
  cases hrules with
  | nil => exact .failed .emptyGrammar
  | @cons first first' rest rest' hr hothers =>
    unfold build
    dsimp only
    rw [hreserved]
    cases hnone : reserved? (first :: rest) with
    | some name => exact .failed (.reservedSymbol name)
    | none =>
      have hadmissible : Admissible (first :: rest) :=
        ⟨List.cons_ne_nil _ _, (reserved?_eq_none_iff _).1 hnone⟩
      -- the start rule is added to both lists
      have hstart : (Rule.start first.lhs.name).RenamesTo f (Rule.start first'.lhs.name) :=
        ⟨hf.start_eq.symm, congrArg (fun name => [name]) hr.lhs, rfl⟩
      refine buildsAlike_assemble hf (.cons hstart (.cons hr hothers)) ?_ hadmissible.wellFormed
      refine List.forall_mem_cons.2 ⟨List.forall_mem_cons.2 ⟨hf.start_mem, ?_⟩, hnames⟩
      have hlhs := hnames first List.mem_cons_self first.lhs List.mem_cons_self
      exact List.forall_mem_singleton.2 hlhs

end Grammar

end GuardedGrammar
