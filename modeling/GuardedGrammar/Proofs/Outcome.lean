/-
  What becomes of a list of rules.

  There are four things that can happen, and what the rules are like decides which (`Outcome`): there is
  no rule; a reserved name is used; some state disputes a terminal; or a grammar is built.  The tables
  are complete before anything is said about disputes, so nothing else goes wrong: no state is unknown,
  no two places to go are entered for one nonterminal, and no cell has another kind of conflict.

  Main statement: `result_build_iff`, when each result comes about.
-/
import GuardedGrammar.Proofs.Disputes

namespace GuardedGrammar

namespace Grammar

variable {rules : List Rule} {name : String} {r : Except BuildError Grammar}

/-! ## Reserved names -/

/-- In reading order, the name is the first that stands for the start symbol or the end of the input. -/
def IsFirstReserved (rules : List Rule) (name : String) : Prop :=
  (name = startName ∨ name = endName) ∧
    ∃ before after, (rules.flatMap Rule.symbols).map Symbol.name = before ++ name :: after ∧
      startName ∉ before ∧ endName ∉ before

/-- There are rules, and no name in them is reserved. -/
structure Admissible (rules : List Rule) : Prop where
  ne_nil : rules ≠ []
  unreserved : ∀ r ∈ rules, ∀ s ∈ r.symbols, s.name ≠ startName ∧ s.name ≠ endName

theorem isReserved_eq_true_iff (name : String) :
    isReserved name = true ↔ name = startName ∨ name = endName := by
  rw [isReserved, Bool.or_eq_true, beq_iff_eq, beq_iff_eq]

/-- The search for a reserved name finds the first one. -/
theorem reserved?_eq_some_iff (rules : List Rule) (name : String) :
    reserved? rules = some name ↔ IsFirstReserved rules name := by
  have hbefore : ∀ before : List String, (∀ n ∈ before, (!isReserved n) = true) ↔
      startName ∉ before ∧ endName ∉ before := by
    intro before
    simp only [Bool.not_eq_true', ← Bool.not_eq_true, isReserved_eq_true_iff, not_or]
    constructor
    · intro h
      exact ⟨fun hmem => (h _ hmem).1 rfl, fun hmem => (h _ hmem).2 rfl⟩
    · rintro ⟨hstart, hend⟩ n hn
      exact ⟨fun he => hstart (he ▸ hn), fun he => hend (he ▸ hn)⟩
  rw [reserved?, List.find?_eq_some_iff_append, isReserved_eq_true_iff]
  simp only [hbefore]
  rfl

/-- The search finds nothing if no name is reserved. -/
theorem reserved?_eq_none_iff (rules : List Rule) :
    reserved? rules = none ↔
      ∀ r ∈ rules, ∀ s ∈ r.symbols, s.name ≠ startName ∧ s.name ≠ endName := by
  rw [reserved?, List.find?_eq_none]
  simp only [List.mem_map, List.mem_flatMap, isReserved_eq_true_iff, not_or]
  constructor
  · intro h r hr s hs
    exact h s.name ⟨s, ⟨r, hr, hs⟩, rfl⟩
  · rintro h _ ⟨s, ⟨r, hr, hs⟩, rfl⟩
    exact h r hr s hs

/-- Rules that use a reserved name are not admissible. -/
theorem IsFirstReserved.not_admissible (h : IsFirstReserved rules name) : ¬Admissible rules := by
  intro hadmissible
  have hnone := (reserved?_eq_none_iff rules).2 hadmissible.unreserved
  rw [(reserved?_eq_some_iff rules name).2 h] at hnone
  exact nomatch hnone

theorem IsFirstReserved.ne_nil (h : IsFirstReserved rules name) : rules ≠ [] := by
  rintro rfl
  exact nomatch (reserved?_eq_some_iff [] name).2 h

/-- With the start rule in front, admissible rules have an automaton in good order. -/
theorem Admissible.wellFormed (h : Admissible rules) :
    (automatonOf (augmented rules)).WellFormed := by
  obtain ⟨first, rest, rfl⟩ := List.exists_cons_of_ne_nil h.ne_nil
  refine wellFormed_automatonOf (List.cons_ne_nil _ _) fun r hr s hs => ?_
  rcases List.mem_cons.1 hr with rfl | hr
  · rcases List.mem_cons.1 hs with rfl | hs
    · -- the start rule is made up of the start symbol and the first left-hand side
      show startName ≠ endName
      decide
    · rw [List.mem_singleton.1 hs]
      exact (h.unreserved first List.mem_cons_self first.lhs List.mem_cons_self).2
  · exact (h.unreserved r hr s hs).2

/-! ## Results -/

/-- What a list of rules leads to. -/
inductive Outcome (rules : List Rule) : Except BuildError Grammar → Prop
  | empty (h : rules = []) : Outcome rules (.error .emptyGrammar)
  | reserved {name : String} (h : IsFirstReserved rules name) :
    Outcome rules (.error (.reservedSymbol name))
  | disputed (h : Admissible rules) {i t : Nat} {name : String} {tables : Tables}
      (hfirst : (automatonOf (augmented rules)).IsFirstDispute i t)
      (hname : (symbolTable (augmented rules)).name? t = some name)
      (htables : (automatonOf (augmented rules)).tables.result = .ok tables) :
    Outcome rules (.error (.tableConflict .shiftReduce i name
      (tables.cell i ((automatonOf (augmented rules)).column t))))
  | built (h : Admissible rules) (hnone : ∀ i t, ¬(automatonOf (augmented rules)).DisputedAt i t)
      (g : Grammar) : Outcome rules (.ok g)

/-- Admissible rules are disputed or lead to a grammar, since their tables can be filled. -/
theorem outcome_assemble (h : Admissible rules) :
    Outcome rules (assemble (augmented rules)).result := by
  obtain ⟨tables, htables⟩ := h.wellFormed.exists_tables
  rw [result_assemble, htables]
  show Outcome rules (do
    (automatonOf (augmented rules)).validate (tables.map (·.actions))
    pure ⟨augmented rules, firstOf (augmented rules), automatonOf (augmented rules), tables⟩)
  rcases Automaton.validate_cases h.wellFormed htables with
    ⟨hvalid, hnone⟩ | ⟨i, t, name, hfirst, hname, hvalid⟩
  · rw [hvalid]
    exact .built h hnone _
  · rw [hvalid]
    exact .disputed h hfirst hname htables

/-- Every list of rules has one of the four outcomes. -/
theorem outcome_build (rules : List Rule) : Outcome rules (build rules).result := by
  cases rules with
  | nil => exact .empty rfl
  | cons first rest =>
    unfold build
    dsimp only
    split
    · rename_i name hname
      exact .reserved ((reserved?_eq_some_iff _ name).1 hname)
    · rename_i hnone
      exact outcome_assemble ⟨List.cons_ne_nil _ _, (reserved?_eq_none_iff _).1 hnone⟩

/-! ## When each comes about -/

namespace Outcome

/-- A grammar is called empty exactly if there are no rules. -/
theorem eq_emptyGrammar_iff (h : Outcome rules r) : r = .error .emptyGrammar ↔ rules = [] := by
  cases h with
  | empty he => exact ⟨fun _ => he, fun _ => rfl⟩
  | reserved hname => exact ⟨fun h => (nomatch h), fun he => absurd he hname.ne_nil⟩
  | disputed ha => exact ⟨fun h => (nomatch h), fun he => absurd he ha.ne_nil⟩
  | built ha => exact ⟨fun h => (nomatch h), fun he => absurd he ha.ne_nil⟩

/-- The name that is reported is the first reserved one. -/
theorem eq_reservedSymbol_iff (h : Outcome rules r) (name : String) :
    r = .error (.reservedSymbol name) ↔ IsFirstReserved rules name := by
  cases h with
  | empty he => exact ⟨fun h => (nomatch h), fun h => absurd he h.ne_nil⟩
  | @reserved name' hname =>
    constructor
    · intro h
      injection h with h
      injection h with h
      exact h ▸ hname
    · intro h
      have hfirst := (reserved?_eq_some_iff rules name).2 h
      rw [(reserved?_eq_some_iff rules name').2 hname] at hfirst
      rw [Option.some.inj hfirst]
  | disputed ha => exact ⟨fun h => (nomatch h), fun h => absurd ha h.not_admissible⟩
  | built ha => exact ⟨fun h => (nomatch h), fun h => absurd ha h.not_admissible⟩

/-- A conflict is reported exactly if admissible rules are disputed somewhere. -/
theorem exists_tableConflict_iff (h : Outcome rules r) :
    (∃ i name c, r = .error (.tableConflict .shiftReduce i name c)) ↔
      Admissible rules ∧ ∃ i t, (automatonOf (augmented rules)).DisputedAt i t := by
  cases h with
  | empty he => exact ⟨fun ⟨_, _, _, h⟩ => (nomatch h), fun h => absurd he h.1.ne_nil⟩
  | reserved hname =>
    exact ⟨fun ⟨_, _, _, h⟩ => (nomatch h), fun h => absurd h.1 hname.not_admissible⟩
  | disputed ha hfirst =>
    exact ⟨fun _ => ⟨ha, _, _, hfirst.disputed⟩, fun _ => ⟨_, _, _, rfl⟩⟩
  | built _ hnone =>
    exact ⟨fun ⟨_, _, _, h⟩ => (nomatch h), fun ⟨_, i, t, hd⟩ => absurd hd (hnone i t)⟩

/-- A grammar is built exactly if admissible rules are disputed nowhere. -/
theorem exists_ok_iff (h : Outcome rules r) :
    (∃ g, r = .ok g) ↔
      Admissible rules ∧ ∀ i t, ¬(automatonOf (augmented rules)).DisputedAt i t := by
  cases h with
  | empty he => exact ⟨fun ⟨_, h⟩ => (nomatch h), fun h => absurd he h.1.ne_nil⟩
  | reserved hname => exact ⟨fun ⟨_, h⟩ => (nomatch h), fun h => absurd h.1 hname.not_admissible⟩
  | disputed _ hfirst => exact ⟨fun ⟨_, h⟩ => (nomatch h), fun h => absurd hfirst.disputed (h.2 _ _)⟩
  | built ha hnone g => exact ⟨fun _ => ⟨ha, hnone⟩, fun _ => ⟨g, rfl⟩⟩

/-- The conflict that is reported is the first dispute. -/
theorem eq_tableConflict_iff (h : Outcome rules r) (kind : ConflictKind) (i : Nat) (name : String)
    (c : Cell) :
    r = .error (.tableConflict kind i name c) ↔ Admissible rules ∧ kind = .shiftReduce ∧
      ∃ t tables, (automatonOf (augmented rules)).IsFirstDispute i t ∧
        (symbolTable (augmented rules)).name? t = some name ∧
        (automatonOf (augmented rules)).tables.result = .ok tables ∧
        c = tables.cell i ((automatonOf (augmented rules)).column t) := by
  cases h with
  | empty he => exact ⟨fun h => (nomatch h), fun h => absurd he h.1.ne_nil⟩
  | reserved hname => exact ⟨fun h => (nomatch h), fun h => absurd h.1 hname.not_admissible⟩
  | @disputed ha i' t' name' tables' hfirst' hname' htables' =>
    constructor
    · intro hr
      injection hr with hr
      injection hr with hkind hi hn hc
      subst hi hn
      exact ⟨ha, hkind.symm, t', tables', hfirst', hname', htables', hc.symm⟩
    · rintro ⟨-, rfl, t, tables, hfirst, hname, htables, rfl⟩
      -- the first dispute is one cell only, and its number has one name
      obtain ⟨rfl, rfl⟩ := hfirst'.unique hfirst
      obtain rfl : tables' = tables := Except.ok.inj (htables'.symm.trans htables)
      obtain rfl : name' = name := Option.some.inj (hname'.symm.trans hname)
      rfl
  | built _ hnone =>
    refine ⟨fun h => (nomatch h), ?_⟩
    rintro ⟨-, -, t, _, hfirst, -⟩
    exact absurd hfirst.disputed (hnone i t)

/-! No state has two places to go for one nonterminal, and nothing that is looked up on the way is
missing. -/

theorem ne_duplicateGoto (h : Outcome rules r) (i : Nat) (name : String) (j k : Nat) :
    r ≠ .error (.duplicateGoto i name j k) := by
  cases h <;> exact fun h => nomatch h

theorem ne_inconsistent (h : Outcome rules r) (what : Inconsistency) :
    r ≠ .error (.inconsistent what) := by
  cases h <;> exact fun h => nomatch h

end Outcome

/-- Exactly when each result comes about. No rule at all is an empty grammar; the first reserved name in
reading order is reported, and otherwise a shift/reduce conflict if some state waits for a terminal for
which one of its reductions is due: that of the first such terminal in the first such state.  Otherwise a
grammar is built.  There is no other result; in particular, no name of a rule is left without a number. -/
theorem result_build_iff (rules : List Rule) :
    ((build rules).result = .error .emptyGrammar ↔ rules = []) ∧
    (∀ name, (build rules).result = .error (.reservedSymbol name) ↔ IsFirstReserved rules name) ∧
    ((∃ i name c, (build rules).result = .error (.tableConflict .shiftReduce i name c)) ↔
      Admissible rules ∧ ∃ i t, (automatonOf (augmented rules)).DisputedAt i t) ∧
    ((∃ g, (build rules).result = .ok g) ↔
      Admissible rules ∧ ∀ i t, ¬(automatonOf (augmented rules)).DisputedAt i t) ∧
    (∀ kind i name c, (build rules).result = .error (.tableConflict kind i name c) ↔
      Admissible rules ∧ kind = .shiftReduce ∧
        ∃ t tables, (automatonOf (augmented rules)).IsFirstDispute i t ∧
          (symbolTable (augmented rules)).name? t = some name ∧
          (automatonOf (augmented rules)).tables.result = .ok tables ∧
          c = tables.cell i ((automatonOf (augmented rules)).column t)) ∧
    (∀ i name j k, (build rules).result ≠ .error (.duplicateGoto i name j k)) ∧
    (∀ what, (build rules).result ≠ .error (.inconsistent what)) ∧
    ∀ r ∈ augmented rules, ∀ s ∈ r.symbols, s.name ∈ (symbolTable (augmented rules)).names := by
  have h := outcome_build rules
  exact ⟨h.eq_emptyGrammar_iff, h.eq_reservedSymbol_iff, h.exists_tableConflict_iff,
    h.exists_ok_iff, h.eq_tableConflict_iff, h.ne_duplicateGoto, h.ne_inconsistent,
    fun _ hr _ hs => mem_symbolTable_of_mem hr hs⟩

/-- A sum can be a sum of sums. -/
def sums : List Rule :=
  [ { lhs := ⟨"sum", none⟩, rhs := [⟨"sum", some 1⟩, ⟨"+", none⟩, ⟨"sum", some 2⟩] },
    { lhs := ⟨"sum", none⟩, rhs := [⟨"n", none⟩] } ]

/-- Between two sums and another `+`, the two could be put together or the `+` be read first. This is the
first dispute. -/
theorem build_sums_disputed : (build sums).result =
      .error (.tableConflict .shiftReduce 4 "+" [.shift 3, .reduce 1]) ∧
    Admissible sums ∧ (∃ t, (automatonOf (augmented sums)).IsFirstDispute 4 t ∧
      (symbolTable (augmented sums)).name? t = some "+") ∧
    "+" ∈ (symbolTable (augmented sums)).names := by
  have hresult : (build sums).result =
      .error (.tableConflict .shiftReduce 4 "+" [.shift 3, .reduce 1]) := by
    decide +kernel
  obtain ⟨-, -, -, -, hconflict, -, -, hnames⟩ := result_build_iff sums
  obtain ⟨hadmissible, -, t, -, hfirst, hname, -⟩ := (hconflict _ _ _ _).1 hresult
  refine ⟨hresult, hadmissible, ⟨t, hfirst, hname⟩, ?_⟩
  exact hnames _ (List.mem_cons_of_mem _ List.mem_cons_self) ⟨"+", none⟩ (by decide)

end Grammar

end GuardedGrammar
