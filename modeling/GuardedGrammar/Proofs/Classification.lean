/-
  Which symbols there are, and which numbers they have.

  Entering names one after the other, each if it is new, gives the names without repetition in the order
  in which they first occur (`names_addAll_empty`).  The table of a grammar is made in this way from the
  left-hand sides, then the names of the right-hand sides, and then the end marker
  (`names_symbolTable`); so a name that occurs on a right-hand side first, and as a left-hand side only
  in a later rule, stands among the left-hand sides.  Numbers are places in that list, so that the
  productions say what the rules say (`isEncoding_encode`).

  Main statement: `classified_of_build`.
-/
import GuardedGrammar.Proofs.Built
import Mathlib.Data.List.Induction

namespace GuardedGrammar

namespace SymbolTable

/-- The names in the order in which they first occur. -/
theorem names_addAll_empty (names : List String) :
    (addAll ∅ names).names = names.eraseDups := by
  induction names using List.reverseRecOn with
  | nil => rfl
  | append_singleton names a ih =>
    have hlast : (addAll ∅ (names ++ [a])).names = ((addAll ∅ names).add a).names :=
      congrArg SymbolTable.names (addAll_append ∅ names [a])
    rw [hlast, names_add, ih, List.eraseDups_append]
    -- a name that is there already is not entered again, and is dropped as a repetition
    by_cases h : a ∈ names
    · simp [h, List.removeAll]
    · simp [h, List.removeAll, List.eraseDups_cons]

end SymbolTable

namespace Grammar

/-! ## The names of a list of rules -/

/-- The names of the left-hand sides, in order. -/
def leftNames (rules : List Rule) : List String := rules.map (·.lhs.name)

/-- The names on the right-hand sides, in order. -/
def rightNames (rules : List Rule) : List String := rules.flatMap fun r => r.rhs.map Symbol.name

theorem exists_symbol_of_mem_leftNames {rules : List Rule} {n : String} (h : n ∈ leftNames rules) :
    ∃ r ∈ rules, ∃ s ∈ r.symbols, s.name = n := by
  obtain ⟨r, hr, hn⟩ := List.mem_map.1 h
  exact ⟨r, hr, r.lhs, List.mem_cons_self, hn⟩

theorem exists_symbol_of_mem_rightNames {rules : List Rule} {n : String} (h : n ∈ rightNames rules) :
    ∃ r ∈ rules, ∃ s ∈ r.symbols, s.name = n := by
  obtain ⟨r, hr, hmem⟩ := List.mem_flatMap.1 h
  obtain ⟨s, hs, hn⟩ := List.mem_map.1 hmem
  exact ⟨r, hr, s, List.mem_cons_of_mem _ hs, hn⟩

/-- The table of nonterminals lists the left-hand sides, each where it occurs first. -/
theorem names_nonterminalTable (rules : List Rule) :
    (nonterminalTable rules).names = (leftNames rules).eraseDups :=
  SymbolTable.names_addAll_empty _

/-- The table of all symbols goes on with the names that are no left-hand sides, and the end
marker. -/
theorem names_symbolTable (rules : List Rule) :
    (symbolTable rules).names = (leftNames rules).eraseDups ++
      ((rightNames rules ++ [endName]).removeAll (leftNames rules)).eraseDups := by
  have hall : symbolTable rules =
      SymbolTable.addAll ∅ (leftNames rules ++ (rightNames rules ++ [endName])) := by
    rw [SymbolTable.addAll_append, SymbolTable.addAll_append]
    rfl
  rw [hall, SymbolTable.names_addAll_empty, List.eraseDups_append]

/-- A production says in numbers what a rule says in names, and it is guarded if the rule has a
condition. -/
structure IsEncoding (names : SymbolTable) (q : Production) (r : Rule) : Prop where
  lhs : names.name? q.lhs = some r.lhs.name
  rhs : q.rhs.map names.name? = r.rhs.map fun s => some s.name
  guarded : q.guarded = true ↔ r.condition ≠ none

/-- A rule whose names have numbers is said in numbers by its production. -/
theorem isEncoding_encode {names : SymbolTable} {r : Rule}
    (h : ∀ s ∈ r.symbols, s.name ∈ names.names) : IsEncoding names (r.encode names) r where
  lhs := SymbolTable.name?_idOf (h r.lhs List.mem_cons_self)
  rhs := by
    rw [Rule.encode, List.map_map]
    exact List.map_congr_left fun s hs =>
      SymbolTable.name?_idOf (h s (List.mem_cons_of_mem _ hs))
  guarded := by
    rw [Rule.encode, Rule.isGuarded, Option.isSome_iff_ne_none]

/-- The names of the symbols of a grammar have the numbers from zero on, one each: those of the
nonterminals are the lowest, and that of the end marker is the greatest. -/
structure IsNumbered (g : Grammar) : Prop where
  back : ∀ name id, g.names.id? name = some id ↔ g.names.name? id = some name
  has_number : ∀ name, (∃ id, g.names.id? name = some id) ↔ name ∈ g.nonterminals ++ g.terminals
  one_each : ∀ a b id, g.names.id? a = some id → g.names.id? b = some id → a = b
  all_given : ∀ id, (∃ name, g.names.id? name = some id) ↔ id < g.names.size
  nonterminal : ∀ name id, g.names.id? name = some id →
    (id < g.automaton.nonterminals ↔ name ∈ g.nonterminals)
  last : g.names.id? endName = some (g.names.size - 1)

theorem names_eq_append (g : Grammar) : g.names.names = g.nonterminals ++ g.terminals :=
  (List.take_append_drop _ _).symm

/-- No name is a nonterminal and a terminal. -/
theorem notMem_terminals (g : Grammar) : ∀ n ∈ g.nonterminals, n ∉ g.terminals := by
  intro n hn ht
  have hnodup := g.names.nodup
  rw [names_eq_append] at hnodup
  exact (List.nodup_append.1 hnodup).2.2 n hn n ht rfl

namespace IsBuiltFrom

variable {g : Grammar} {first : Rule} {rest : List Rule} (hg : g.IsBuiltFrom first rest)
include hg

/-- The nonterminals of a grammar are those that its rules have on the left. -/
theorem nonterminals_eq_names : g.nonterminals = (nonterminalTable g.rules).names := by
  rw [nonterminals, hg.names_eq, hg.nonterminals_eq]
  exact List.prefix_iff_eq_take.1 (prefix_names_symbolTable g.rules) |>.symm

theorem leftNames_eq_cons : leftNames g.rules = startName :: leftNames (first :: rest) := by
  rw [hg.rules_eq]
  rfl

theorem rightNames_eq_cons :
    rightNames g.rules = first.lhs.name :: rightNames (first :: rest) := by
  rw [hg.rules_eq]
  rfl

/-- The start symbol, and then the left-hand sides in the order in which they first occur. -/
theorem nonterminals_eq_cons : g.nonterminals = startName :: (leftNames (first :: rest)).eraseDups := by
  have hother : (leftNames (first :: rest)).filter (fun n => !n == startName) =
      leftNames (first :: rest) := by
    refine List.filter_eq_self.2 fun n hn => ?_
    obtain ⟨r, hr, s, hs, rfl⟩ := exists_symbol_of_mem_leftNames hn
    have hne := (hg.name_ne_reserved hr hs).1
    simpa using hne
  rw [hg.nonterminals_eq_names, names_nonterminalTable, hg.leftNames_eq_cons, List.eraseDups_cons,
    hother]

/-- The other names in the order in which they first occur, and then the end marker. -/
theorem terminals_eq_concat : g.terminals =
    ((rightNames (first :: rest)).filter fun n => n ∉ leftNames (first :: rest)).eraseDups ++
      [endName] := by
  -- the start rule adds no terminal: what it derives is a left-hand side, and it is itself in no rule
  have hothers : (rightNames g.rules).removeAll (leftNames g.rules) =
      (rightNames (first :: rest)).filter fun n => n ∉ leftNames (first :: rest) := by
    have hfirst : first.lhs.name ∈ leftNames (first :: rest) := List.mem_cons_self
    rw [hg.rightNames_eq_cons, hg.leftNames_eq_cons, List.removeAll,
      List.filter_cons_of_neg (by simp [hfirst])]
    refine List.filter_congr fun n hn => ?_
    obtain ⟨r, hr, s, hs, rfl⟩ := exists_symbol_of_mem_rightNames hn
    have hne := (hg.name_ne_reserved hr hs).1
    simp [hne]
  -- the end marker is in no rule, so it is entered last and by itself
  have hend : endName ∉ leftNames g.rules := by
    intro h
    obtain ⟨r, hr, s, hs, he⟩ := exists_symbol_of_mem_leftNames h
    exact hg.name_ne_endName hr hs he
  have hlast : endName ∉ rightNames g.rules := by
    intro h
    obtain ⟨r, hr, s, hs, he⟩ := exists_symbol_of_mem_rightNames h
    exact hg.name_ne_endName hr hs he
  have hall : (rightNames g.rules ++ [endName]).removeAll (leftNames g.rules) =
      (rightNames g.rules).removeAll (leftNames g.rules) ++ [endName] := by
    simp [List.removeAll, hend]
  have hnew : [endName].removeAll ((rightNames g.rules).removeAll (leftNames g.rules)) =
      [endName] := by
    simp [List.removeAll, hlast]
  have hnames := g.names_eq_append
  rw [hg.names_eq, names_symbolTable, hall, List.eraseDups_append, hnew, hothers,
    hg.nonterminals_eq_names, names_nonterminalTable] at hnames
  exact (List.append_cancel_left hnames).symm

/-- Numbers and names belong together one to one, since a name is entered once. -/
theorem isNumbered : g.IsNumbered where
  back := SymbolTable.id?_eq_some_iff g.names
  has_number name := by
    rw [← names_eq_append]
    constructor
    · rintro ⟨id, hid⟩
      exact ((SymbolTable.id?_eq_some_iff_idOf _ _ _).1 hid).1
    · intro hname
      exact ⟨_, SymbolTable.id?_eq_some_idOf hname⟩
  one_each a b id ha hb := by
    rw [SymbolTable.id?_eq_some_iff] at ha hb
    exact Option.some.inj (ha.symm.trans hb)
  all_given := SymbolTable.exists_id?_eq_some_iff g.names
  nonterminal name id hid := by
    obtain ⟨-, rfl⟩ := (SymbolTable.id?_eq_some_iff_idOf _ _ _).1 hid
    rw [hg.idOf_lt_nonterminals_iff, hg.nonterminals_eq_names, mem_names_nonterminalTable]
  last := by
    rw [SymbolTable.id?_eq_some_iff_idOf]
    exact ⟨hg.endName_mem_names, hg.idOf_endName⟩

theorem forall₂_isEncoding :
    List.Forall₂ (IsEncoding g.names) g.automaton.productions g.rules := by
  rw [hg.productions_eq, List.forall₂_map_left_iff, List.forall₂_same]
  exact fun r hr => isEncoding_encode fun s hs => hg.mem_names hr hs

end IsBuiltFrom

/-- The nonterminals of a grammar are the start symbol and the left-hand sides, its terminals all other
names and the end marker, which no rule mentions; each comes where its name first occurs.  No name is
both, and each has a number of its own.  The rules are those that were given behind the start rule, and
the productions say the same as the rules. -/
theorem classified_of_build (rules : List Rule) (g : Grammar) (h : (build rules).result = .ok g) :
    ∃ first rest, rules = first :: rest ∧ g.rules = Rule.start first.lhs.name :: rules ∧
      g.nonterminals = startName :: (leftNames rules).eraseDups ∧
      g.terminals = ((rightNames rules).filter fun n => n ∉ leftNames rules).eraseDups ++ [endName] ∧
      (∀ r ∈ g.rules, ∀ s ∈ r.symbols, s.name ≠ endName) ∧
      (∀ n ∈ g.nonterminals, n ∉ g.terminals) ∧ g.IsNumbered ∧
      List.Forall₂ (IsEncoding g.names) g.automaton.productions g.rules := by
  obtain ⟨first, rest, rfl, hg⟩ := isBuiltFrom_of_build h
  exact ⟨first, rest, rfl, hg.rules_eq, hg.nonterminals_eq_cons, hg.terminals_eq_concat,
    fun _ hr _ hs => hg.name_ne_endName hr hs, g.notMem_terminals, hg.isNumbered, hg.forall₂_isEncoding⟩

/-- The name E occurs on a right-hand side twice before it is a left-hand side, each time with an index
of its own, and two rules derive it, of which one has a condition. -/
def laterLeft : List Rule :=
  [ ⟨⟨"S", none⟩, [⟨"a", none⟩, ⟨"E", some 1⟩, ⟨"E", some 2⟩], none, none⟩,
    ⟨⟨"E", none⟩, [⟨"b", some 1⟩], some ⟨.literal "x", .read ⟨.numbered 1, "y"⟩⟩, none⟩,
    ⟨⟨"E", some 1⟩, [⟨"a", none⟩, ⟨"b", none⟩], none, none⟩ ]

/-- A name that is found on the right before it is found on the left is a nonterminal, and indices
make no difference. -/
theorem classified_of_build_laterLeft : ∃ g, (build laterLeft).result = .ok g ∧
    g.nonterminals = ["$START$", "S", "E"] ∧ g.terminals = ["a", "b", "$"] := by
  have hbuilt : (build laterLeft).result.map (fun g => (g.nonterminals, g.terminals)) =
      .ok (["$START$", "S", "E"], ["a", "b", "$"]) := by decide +kernel
  obtain ⟨g, hg, -⟩ := exists_of_map_eq_ok hbuilt
  obtain ⟨first, rest, -, -, hnonterminals, hterminals, -⟩ := classified_of_build _ _ hg
  exact ⟨g, hg, hnonterminals, hterminals⟩

end Grammar

end GuardedGrammar
