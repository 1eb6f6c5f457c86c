/-
  What is known of a grammar that has been built.

  `build` refuses rules that use a reserved name, rules whose automaton lacks a state, and cells that
  cannot be decided.  A grammar that it returns therefore has productions that are its rules in
  numbers, and tables that agree with the states of its automaton: each action of a cell is asked for
  by an item of the state, and an item that waits for a nonterminal has somewhere to go.
-/
import GuardedGrammar.Parse.Step
import GuardedGrammar.Proofs.Closure
import GuardedGrammar.Proofs.Numbering
import GuardedGrammar.Proofs.Rows

namespace GuardedGrammar

/-- A table that passes has no cell that is disputed. -/
theorem Automaton.conflict?_eq_none_of_validate {a : Automaton} {rows : List (List Cell)} {u : Unit}
    (h : a.validate rows = .ok u) : Tables.conflict? a.productions rows = none := by
  unfold validate at h
  split at h
  · assumption
  · exact nomatch h

namespace Grammar

/-- The grammar comes from the rules `first :: rest`. -/
structure IsBuiltFrom (g : Grammar) (first : Rule) (rest : List Rule) : Prop where
  unreserved : ∀ r ∈ first :: rest, ∀ s ∈ r.symbols, isReserved s.name = false
  rules_eq : g.rules = Rule.start first.lhs.name :: first :: rest
  productions_eq : g.automaton.productions = g.rules.map (Rule.encode g.names)
  names_eq : g.names = symbolTable g.rules
  nonterminals_eq : g.automaton.nonterminals = (nonterminalTable g.rules).size
  first_eq : g.first =
    (FirstSets.settled g.automaton.productions g.automaton.nonterminals g.names.size).1
  follow_eq : g.automaton.follow =
    (FollowSets.settled g.automaton.productions g.automaton.nonterminals
      (startSymbol g.automaton.productions) (g.names.size - 1) g.first).1
  states_eq : g.automaton.states =
    collection g.automaton.productions g.automaton.nonterminals g.names.size
  tables_eq : g.automaton.tables.result = .ok g.tables
  undisputed : Tables.conflict? g.automaton.productions (g.tables.map (·.actions)) = none

/-- The parts of a grammar that has been assembled, one for each thing that is computed on the
way. -/
theorem isBuiltFrom_of_assemble {first : Rule} {rest : List Rule} {g : Grammar}
    (hres : reserved? (first :: rest) = none)
    (h : (assemble (Rule.start first.lhs.name :: first :: rest)).result = .ok g) :
    g.IsBuiltFrom first rest := by
  unfold assemble at h
  dsimp only at h
  -- each stage has succeeded; what it logs is of no account here
  obtain ⟨_, -, h⟩ := (Traced.result_bind_eq_ok_iff _ _ _).1 h
  obtain ⟨_, -, h⟩ := (Traced.result_bind_eq_ok_iff _ _ _).1 h
  obtain ⟨tables, htables, h⟩ := (Traced.result_bind_eq_ok_iff _ _ _).1 h
  obtain ⟨_, hvalid, h⟩ := (Traced.result_bind_eq_ok_iff _ _ _).1 h
  obtain ⟨_, -, h⟩ := (Traced.result_bind_eq_ok_iff _ _ _).1 h
  obtain rfl := Except.ok.inj h
  refine ⟨fun r hr s hs => ?_, rfl, rfl, rfl, rfl, rfl, rfl, rfl, htables,
    Automaton.conflict?_eq_none_of_validate hvalid⟩
  have := List.find?_eq_none.1 hres s.name
    (List.mem_map.2 ⟨s, List.mem_flatMap.2 ⟨r, hr, hs⟩, rfl⟩)
  exact eq_false_of_ne_true this

/-- A build that succeeds has been given at least one rule, and no reserved name. -/
theorem isBuiltFrom_of_build {rules : List Rule} {g : Grammar} (h : (build rules).result = .ok g) :
    ∃ first rest, rules = first :: rest ∧ g.IsBuiltFrom first rest := by
  cases rules with
  | nil => exact nomatch h
  | cons first rest =>
    refine ⟨first, rest, rfl, ?_⟩
    unfold build at h
    dsimp only at h
    split at h
    · exact nomatch h
    · rename_i hres
      exact isBuiltFrom_of_assemble hres h

/-- A grammar that can be built, of which something is found by building it. -/
theorem exists_of_map_eq_ok {α : Type} {rules : List Rule} {f : Grammar → α} {a : α}
    (h : (build rules).result.map f = .ok a) : ∃ g, (build rules).result = .ok g ∧ f g = a := by
  cases hr : (build rules).result with
  | ok g =>
    rw [hr] at h
    exact ⟨g, rfl, Except.ok.inj h⟩
  | error e =>
    rw [hr] at h
    exact nomatch h

namespace IsBuiltFrom

variable {g : Grammar} {first : Rule} {rest : List Rule} (hg : g.IsBuiltFrom first rest)
include hg

/-! ## Names in rules -/

/-- The rules that were given use no reserved name. -/
theorem name_ne_reserved {r : Rule} (hr : r ∈ first :: rest) {s : Symbol} (hs : s ∈ r.symbols) :
    s.name ≠ startName ∧ s.name ≠ endName := by
  have hfree := hg.unreserved r hr s hs
  constructor
  · intro he
    simp [isReserved, he] at hfree
  · intro he
    simp [isReserved, he] at hfree

/-- No rule mentions the end marker, not even the start rule that is put in front. -/
theorem name_ne_endName {r : Rule} (hr : r ∈ g.rules) {s : Symbol} (hs : s ∈ r.symbols) :
    s.name ≠ endName := by
  rw [hg.rules_eq] at hr
  -- the start rule mentions the start symbol and the first left-hand side, the others were checked
  rcases List.mem_cons.1 hr with rfl | hr
  · rcases List.mem_cons.1 hs with rfl | hs
    · show startName ≠ endName
      decide
    · rw [List.mem_singleton.1 hs]
      exact (hg.name_ne_reserved List.mem_cons_self List.mem_cons_self).2
  · exact (hg.name_ne_reserved hr hs).2

/-- The start symbol stands on no right-hand side. -/
theorem name_ne_startName {r : Rule} (hr : r ∈ g.rules) {s : Symbol} (hs : s ∈ r.rhs) :
    s.name ≠ startName := by
  rw [hg.rules_eq] at hr
  rcases List.mem_cons.1 hr with rfl | hr
  · rw [List.mem_singleton.1 hs]
    exact (hg.name_ne_reserved List.mem_cons_self List.mem_cons_self).1
  · exact (hg.name_ne_reserved hr (List.mem_cons_of_mem _ hs)).1

theorem mem_names {r : Rule} (hr : r ∈ g.rules) {s : Symbol} (hs : s ∈ r.symbols) :
    s.name ∈ g.names.names := by
  rw [hg.names_eq]
  exact mem_symbolTable_of_mem hr hs

/-- The end marker has a number as well, although no rule mentions it. -/
theorem endName_mem_names : endName ∈ g.names.names := by
  rw [hg.names_eq, mem_names_symbolTable]
  exact .inr rfl

/-! Left-hand sides are numbered first, so theirs are the numbers below the count of nonterminals.
The end marker has been entered last, so it has the highest number, and it is a terminal. -/

theorem idOf_lt_nonterminals_iff (n : String) :
    g.names.idOf n < g.automaton.nonterminals ↔ ∃ r ∈ g.rules, r.lhs.name = n := by
  rw [hg.nonterminals_eq, hg.names_eq, idOf_lt_size_nonterminalTable_iff]

theorem idOf_endName : g.names.idOf endName = g.automaton.endMarker := by
  show _ = g.names.size - 1
  rw [hg.names_eq, Grammar.idOf_endName fun r hr s hs => hg.name_ne_endName hr hs]

theorem nonterminals_lt_size : g.automaton.nonterminals < g.names.size := by
  rw [hg.nonterminals_eq, hg.names_eq]
  exact size_nonterminalTable_lt fun r hr s hs => hg.name_ne_endName hr hs

theorem endMarker_range : g.automaton.nonterminals ≤ g.automaton.endMarker ∧
    g.automaton.endMarker < g.names.size :=
  ⟨Nat.le_sub_one_of_lt hg.nonterminals_lt_size,
    Nat.sub_one_lt_of_lt hg.nonterminals_lt_size⟩

/-! ## Rules and productions -/

/-! Productions and rules correspond by their indices. -/

theorem rules_of_production {p : Nat} {q : Production} (h : g.automaton.productions[p]? = some q) :
    g.rules[p]? = some (g.rule p) ∧ q = (g.rule p).encode g.names := by
  rw [hg.productions_eq, List.getElem?_map] at h
  obtain ⟨r, hr, rfl⟩ := Option.map_eq_some_iff.1 h
  have hrule : g.rule p = r := by rw [rule, hr, Option.getD_some]
  exact ⟨by rw [hr, hrule], by rw [hrule]⟩

theorem production_of_rules {p : Nat} {r : Rule} (h : g.rules[p]? = some r) :
    g.automaton.productions[p]? = some (r.encode g.names) := by
  rw [hg.productions_eq, List.getElem?_map, h]
  rfl

theorem rule_mem {p : Nat} {q : Production} (h : g.automaton.productions[p]? = some q) :
    g.rule p ∈ g.rules :=
  List.mem_of_getElem? (hg.rules_of_production h).1

/-- All rules but the start rule are those that were given. -/
theorem rule_mem_given {p : Nat} {q : Production} (h : g.automaton.productions[p]? = some q)
    (hp : p ≠ startProduction) : g.rule p ∈ first :: rest := by
  have hget := (hg.rules_of_production h).1
  rw [hg.rules_eq] at hget
  cases p with
  | zero => exact absurd rfl hp
  | succ p => exact List.mem_of_getElem? (List.getElem?_cons_succ ▸ hget)

theorem rule_start : g.rule startProduction = Rule.start first.lhs.name := by
  rw [rule, hg.rules_eq]
  rfl

theorem production_start :
    g.automaton.productions[startProduction]? =
      some ((Rule.start first.lhs.name).encode g.names) :=
  hg.production_of_rules (by rw [hg.rules_eq]; rfl)

theorem lhsOf_eq {p : Nat} {q : Production} (h : g.automaton.productions[p]? = some q) :
    g.automaton.lhsOf p = g.names.idOf (g.rule p).lhs.name := by
  rw [Automaton.lhsOf, h, (hg.rules_of_production h).2]
  rfl

/-- An item waits for the symbol of its rule that stands behind the dot. -/
theorem observed?_eq_some {x : Item} {id : Nat}
    (h : x.observed? g.automaton.productions = some id) :
    g.rule x.production ∈ g.rules ∧
      ∃ s, (g.rule x.production).rhs[x.dot]? = some s ∧ g.names.idOf s.name = id := by
  obtain ⟨q, hq, ho⟩ := (x.observed?_eq_some_iff id).1 h
  rw [(hg.rules_of_production hq).2, Rule.encode, List.getElem?_map] at ho
  exact ⟨hg.rule_mem hq, Option.map_eq_some_iff.1 ho⟩

/-- The symbol behind the dot, as a number, is what the item waits for. -/
theorem observed?_of_rhs {x : Item} {q : Production} {s : Symbol}
    (hq : g.automaton.productions[x.production]? = some q)
    (hs : (g.rule x.production).rhs[x.dot]? = some s) :
    x.observed? g.automaton.productions = some (g.names.idOf s.name) := by
  refine (x.observed?_eq_some_iff _).2 ⟨q, hq, ?_⟩
  rw [(hg.rules_of_production hq).2, Rule.encode, List.getElem?_map, hs]
  rfl

/-- An item that waits for nothing has its dot behind the right-hand side. -/
theorem length_le_of_observed?_eq_none {x : Item} {q : Production}
    (hq : g.automaton.productions[x.production]? = some q)
    (h : x.observed? g.automaton.productions = none) :
    (g.rule x.production).rhs.length ≤ x.dot := by
  refine Nat.le_of_not_lt fun hlt => ?_
  rw [hg.observed?_of_rhs hq (List.getElem?_eq_getElem hlt)] at h
  exact nomatch h

/-- An item with its dot behind the right-hand side waits for nothing. -/
theorem observed?_eq_none {x : Item} (h : (g.rule x.production).rhs.length ≤ x.dot) :
    x.observed? g.automaton.productions = none := by
  refine Option.eq_none_iff_forall_ne_some.2 fun id ho => ?_
  obtain ⟨-, s, hs, -⟩ := hg.observed?_eq_some ho
  exact absurd (List.getElem?_eq_some_iff.1 hs).1 (Nat.not_lt.2 h)

/-- The start production waits for the symbol that inputs are derived from. -/
theorem observed?_start : (⟨startProduction, 0⟩ : Item).observed? g.automaton.productions =
    some (g.names.idOf first.lhs.name) :=
  (Item.observed?_eq_some_iff _ _).2 ⟨_, hg.production_start, rfl⟩

/-- No item waits for the start symbol. -/
theorem observed?_ne_start {x : Item} {q : Production}
    (h : g.automaton.productions[startProduction]? = some q) :
    x.observed? g.automaton.productions ≠ some q.lhs := by
  intro ho
  rw [hg.production_start] at h
  obtain rfl := Option.some.inj h
  obtain ⟨hr, s, hs, hid⟩ := hg.observed?_eq_some ho
  have hmem := List.mem_of_getElem? hs
  have hin := hg.mem_names hr (List.mem_cons_of_mem _ hmem)
  -- equal numbers are equal names, and that name is on no right-hand side
  exact hg.name_ne_startName hr hmem (SymbolTable.idOf_inj hin hid)

end IsBuiltFrom

end Grammar

end GuardedGrammar
