/-
  Tables as they are declared.

  What the tables of a grammar hold can be said without filling them: from the items of a state, the
  states that symbols lead to and the FOLLOW sets (`Declares`).  A cell that accepts does nothing else.
  Any other holds the shift of a terminal that the state waits for, each reduction with a guard that is
  ready, and of the ready ones without a guard the longest, or the last of the longest.

  What is known of automata in terms of numbers is put in terms of rules here (`isDue_iff`, `awaits_iff`).

  Main statement: `tables_as_declared`.
-/
import GuardedGrammar.Proofs.Disputes
import GuardedGrammar.Proofs.Lookahead

namespace GuardedGrammar

namespace Grammar

/-! ## What rules and items declare -/

/-- The name stands behind the dot of one of the items. -/
def Observes (g : Grammar) (items : ItemSet) (name : String) : Prop :=
  ∃ x ∈ items, ∃ s, (g.rule x.production).rhs[x.dot]? = some s ∧ s.name = name

/-- The name leads from the items to the state with the number. -/
def LeadsTo (g : Grammar) (items : ItemSet) (name : String) (j : Nat) : Prop :=
  g.Observes items name ∧ g.states[j]? =
    some (successor g.automaton.productions g.automaton.nonterminals items (g.names.idOf name))

/-- The start rule has been read, and the end of the input comes. -/
def Accepts (items : ItemSet) (name : String) : Prop :=
  name = endName ∧ ⟨startProduction, 1⟩ ∈ items

/-- A rule that was given has been read, and the name can follow its left-hand side. -/
structure IsReady (g : Grammar) (items : ItemSet) (name : String) (r : Nat) : Prop where
  ne_start : r ≠ startProduction
  complete : ⟨r, (g.rule r).rhs.length⟩ ∈ items
  follow : g.names.idOf name ∈ g.followOf (g.names.idOf (g.rule r).lhs.name)

/-- The second rule is longer than the first, or as long and not listed before it. -/
def GivesWay (g : Grammar) (q r : Nat) : Prop :=
  (g.rule q).rhs.length < (g.rule r).rhs.length ∨
    (g.rule q).rhs.length = (g.rule r).rhs.length ∧ q ≤ r

/-- What is to be done in a state with the items when the terminal comes. -/
inductive Declares (g : Grammar) (items : ItemSet) (name : String) : Action → Prop
  | accept (h : Accepts items name) : Declares g items name .accept
  | shift (h : ¬Accepts items name) {j : Nat} (hj : g.LeadsTo items name j) :
    Declares g items name (.shift j)
  | guarded (h : ¬Accepts items name) {r : Nat} (hr : (g.rule r).isGuarded = true)
      (ready : g.IsReady items name r) : Declares g items name (.reduce r)
  | unguarded (h : ¬Accepts items name) {r : Nat} (hr : (g.rule r).isGuarded = false)
      (ready : g.IsReady items name r)
      (greatest : ∀ q, g.IsReady items name q → (g.rule q).isGuarded = false → g.GivesWay q r) :
    Declares g items name (.reduce r)

/-- A cell holds exactly what is declared, each action once.  What the state waits for is shifted, and
where rules without a guard are ready, exactly one of them is reduced. -/
structure IsAsDeclared (g : Grammar) (items : ItemSet) (name : String) (c : Cell) : Prop where
  nodup : c.Nodup
  mem_iff : ∀ act, act ∈ c ↔ g.Declares items name act
  shifted : g.Observes items name → ∃ j, .shift j ∈ c
  reduced : ¬Accepts items name → ∀ q, g.IsReady items name q → (g.rule q).isGuarded = false →
    ∃! r, (g.rule r).isGuarded = false ∧ .reduce r ∈ c

namespace IsBuiltFrom

variable {g : Grammar} {first : Rule} {rest : List Rule} (hg : g.IsBuiltFrom first rest)
  {state : Nat} {name : String} {items : ItemSet}
include hg

/-! ## From numbers to rules -/

/-- A production is unguarded if its rule is. -/
theorem unguarded_iff (p : Nat) :
    Cell.Unguarded g.automaton.productions p ↔ (g.rule p).isGuarded = false := by
  have hguarded : ((g.automaton.productions[p]?.map (·.guarded)).getD false) =
      (g.rule p).isGuarded := by
    rw [hg.productions_eq, List.getElem?_map, rule]
    cases g.rules[p]? <;> rfl
  rw [← hguarded, ← Bool.not_eq_true']
  rfl

/-- A production is as long as its rule. -/
theorem lengthOf_eq (p : Nat) :
    Cell.lengthOf g.automaton.productions p = (g.rule p).rhs.length := by
  rw [Cell.lengthOf, hg.productions_eq, List.getElem?_map, rule]
  cases g.rules[p]? with
  | none => rfl
  | some r => exact List.length_map _

/-- Productions give way as their rules do. -/
theorem givesWay_iff (q r : Nat) :
    Cell.GivesWay g.automaton.productions q r ↔ g.GivesWay q r := by
  unfold Cell.GivesWay
  rw [hg.lengthOf_eq, hg.lengthOf_eq]
  rfl

/-- The items wait for a number exactly if they wait for its name. -/
theorem awaits_iff : g.automaton.Awaits items (g.names.idOf name) ↔ g.Observes items name := by
  constructor
  · rintro ⟨x, hx, ho⟩
    obtain ⟨hr, s, hs, hid⟩ := hg.observed?_eq_some ho
    have hmem := hg.mem_names hr (List.mem_cons_of_mem _ (List.mem_of_getElem? hs))
    exact ⟨x, hx, s, hs, SymbolTable.idOf_inj hmem hid⟩
  · rintro ⟨x, hx, s, hs, rfl⟩
    -- a number without a rule stands for a rule without right-hand side
    have hrule : g.rules[x.production]? = some (g.rule x.production) := by
      cases h : g.rules[x.production]? with
      | none =>
        have hempty : (g.rule x.production).rhs = [] := by
          rw [rule, h]
          rfl
        rw [hempty, List.getElem?_nil] at hs
        exact absurd hs.symm (Option.some_ne_none s)
      | some r => rw [rule, h, Option.getD_some]
    exact ⟨x, hx, hg.observed?_of_rhs (hg.production_of_rules hrule) hs⟩

/-- The items of a state are those of rules. -/
theorem isOf (hitems : items ∈ g.states) {x : Item} (hx : x ∈ items) :
    x.IsOf g.automaton.productions := by
  have hcollection : items ∈ collection g.automaton.productions g.automaton.nonterminals
      g.names.size := hg.states_eq ▸ hitems
  exact isOf_of_mem_collection hg.wellFormed.productions_ne hcollection hx

/-- A production is completed by the item with the dot behind all of its rule. -/
theorem completes_iff (hitems : items ∈ g.states) (r : Nat) :
    g.automaton.Completes items.toList r ↔ ⟨r, (g.rule r).rhs.length⟩ ∈ items := by
  constructor
  · rintro ⟨x, hx, rfl, ho⟩
    obtain ⟨p, hp, hle⟩ := hg.isOf hitems hx
    -- the dot stands behind the right-hand side, and not further than that
    have hge := hg.length_le_of_observed?_eq_none hp ho
    rw [(hg.rules_of_production hp).2, Rule.encode, List.length_map] at hle
    rwa [← Nat.le_antisymm hle hge]
  · intro hx
    exact ⟨_, hx, rfl, hg.observed?_eq_none (Nat.le_refl _)⟩

/-- A reduction is due exactly if its rule is ready. -/
theorem isDue_iff (hitems : items ∈ g.states) (r : Nat) :
    g.automaton.IsDue items.toList (g.names.idOf name) r ↔ g.IsReady items name r := by
  have hlhs : ⟨r, (g.rule r).rhs.length⟩ ∈ items →
      g.automaton.lhsOf r = g.names.idOf (g.rule r).lhs.name := by
    intro hx
    obtain ⟨p, hp, -⟩ := hg.isOf hitems hx
    exact hg.lhsOf_eq hp
  unfold Automaton.IsDue
  rw [hg.completes_iff hitems]
  constructor
  · rintro ⟨hne, hx, ht⟩
    exact ⟨hne, hx, hlhs hx ▸ ht⟩
  · rintro ⟨hne, hx, ht⟩
    exact ⟨hne, hx, (hlhs hx).symm ▸ ht⟩

/-- The cell of the end marker accepts if the start rule has been read. -/
theorem accepts_iff (hitems : items ∈ g.states) :
    g.names.idOf name = g.automaton.endMarker ∧
      g.automaton.Completes items.toList startProduction ↔ Accepts items name := by
  rw [hg.completes_iff hitems, hg.rule_start]
  refine and_congr_left' ⟨fun h => ?_, fun h => h ▸ hg.idOf_endName⟩
  rw [← hg.idOf_endName] at h
  exact (SymbolTable.idOf_inj hg.endName_mem_names h.symm).symm

/-- What prevails in numbers prevails among rules. -/
theorem prevails_iff (hitems : items ∈ g.states) (r : Nat) :
    Cell.Prevails g.automaton.productions
        (g.automaton.IsDue items.toList (g.names.idOf name)) r ↔
      g.IsReady items name r ∧ ((g.rule r).isGuarded = false →
        ∀ q, g.IsReady items name q → (g.rule q).isGuarded = false → g.GivesWay q r) := by
  simp only [← hg.isDue_iff hitems, ← hg.unguarded_iff, ← hg.givesWay_iff]
  exact ⟨fun h => ⟨h.mem, h.greatest⟩, fun h => ⟨h.1, h.2⟩⟩

/-- Where a number leads is where its name leads. -/
theorem leadsTo_iff (j : Nat) :
    g.automaton.Awaits items (g.names.idOf name) ∧
      g.automaton.target? items (g.names.idOf name) = some j ↔ g.LeadsTo items name j := by
  rw [hg.awaits_iff, hg.wellFormed.target?_eq_some_iff]
  rfl

/-- A name that is waited for leads to a state. -/
theorem exists_leadsTo (hitems : items ∈ g.states) (h : g.Observes items name) :
    ∃ j, g.LeadsTo items name j := by
  have hawaits := hg.awaits_iff.2 h
  obtain ⟨j, hj⟩ := hg.wellFormed.leadsOn hitems _ hawaits
  exact ⟨j, (hg.leadsTo_iff j).1 ⟨hawaits, hj⟩⟩

/-- The end marker is not waited for. -/
theorem not_accepts_of_observes (h : g.Observes items name) : ¬Accepts items name := by
  rintro ⟨rfl, -⟩
  have hlt := hg.wellFormed.lt_endMarker_of_awaits (hg.awaits_iff.2 h)
  rw [hg.idOf_endName] at hlt
  exact Nat.lt_irrefl _ hlt

/-! ## Cells and places to go -/

section

variable {c : Cell} (h : g.automaton.Declares items (g.names.idOf name) c)
include h

/-! What is declared of cells in numbers, said in names. -/

theorem accept_mem_iff (hitems : items ∈ g.states) : .accept ∈ c ↔ Accepts items name :=
  h.accept.trans (hg.accepts_iff hitems)

theorem shift_mem_iff (j : Nat) : .shift j ∈ c ↔ g.LeadsTo items name j :=
  (h.shift j).trans (hg.leadsTo_iff j)

theorem reduce_mem_iff (hitems : items ∈ g.states) (r : Nat) :
    .reduce r ∈ c ↔ ¬Accepts items name ∧ g.IsReady items name r ∧
      ((g.rule r).isGuarded = false →
        ∀ q, g.IsReady items name q → (g.rule q).isGuarded = false → g.GivesWay q r) := by
  rw [h.holds.reduce, hg.accept_mem_iff h hitems, hg.prevails_iff hitems]

/-- A cell that has what is declared in numbers has what rules declare. -/
theorem mem_iff_declares (hitems : items ∈ g.states) (act : Action) :
    act ∈ c ↔ g.Declares items name act := by
  constructor
  · intro hact
    cases act with
    | shift j =>
      have hj := (hg.shift_mem_iff h j).1 hact
      exact .shift (hg.not_accepts_of_observes hj.1) hj
    | reduce r =>
      obtain ⟨hno, hready, hgreatest⟩ := (hg.reduce_mem_iff h hitems r).1 hact
      cases hguard : (g.rule r).isGuarded with
      | true => exact .guarded hno hguard hready
      | false => exact .unguarded hno hguard hready (hgreatest hguard)
    | accept => exact .accept ((hg.accept_mem_iff h hitems).1 hact)
  · intro hact
    cases hact with
    | accept haccepts => exact (hg.accept_mem_iff h hitems).2 haccepts
    | shift _ hj => exact (hg.shift_mem_iff h _).2 hj
    | guarded hno hguard hready =>
      refine (hg.reduce_mem_iff h hitems _).2 ⟨hno, hready, fun hunguarded => ?_⟩
      rw [hguard] at hunguarded
      exact nomatch hunguarded
    | unguarded hno _ hready hgreatest =>
      exact (hg.reduce_mem_iff h hitems _).2 ⟨hno, hready, fun _ => hgreatest⟩

/-- A cell that is as the numbers declare is as the rules declare. -/
theorem isAsDeclared (hitems : items ∈ g.states) : g.IsAsDeclared items name c where
  nodup := h.holds.nodup
  mem_iff := hg.mem_iff_declares h hitems
  shifted hobserves := by
    obtain ⟨j, hj⟩ := hg.exists_leadsTo hitems hobserves
    exact ⟨j, (hg.shift_mem_iff h j).2 hj⟩
  reduced hno q hready hunguarded := by
    have haccept : .accept ∉ c := fun hmem => hno ((hg.accept_mem_iff h hitems).1 hmem)
    -- one without a guard prevails where one is due, and two of them would be the same
    obtain ⟨r, hr, hrun⟩ := h.holds.unguarded haccept q
      ((hg.isDue_iff hitems q).2 hready) ((hg.unguarded_iff q).2 hunguarded)
    refine ⟨r, ⟨(hg.unguarded_iff r).1 hrun, hr⟩, ?_⟩
    rintro r' ⟨hrun', hr'⟩
    exact h.holds.eq_of_unguarded hr' ((hg.unguarded_iff r').2 hrun') hr hrun

end

/-- So is the cell of each state and each terminal. -/
theorem isAsDeclared_actions (hitems : g.states[state]? = some items) (hname : name ∈ g.terminals) :
    g.IsAsDeclared items name (g.actions state name) := by
  obtain ⟨hmem, hge⟩ := (g.mem_terminals_iff name).1 hname
  rw [actions_of_terminalId? ((g.terminalId?_eq_some_iff name _).2 ⟨⟨hmem, rfl⟩, hge⟩)]
  obtain ⟨-, -, -, h⟩ := Automaton.declares_cell hg.wellFormed hg.tables_eq hitems hge
    ((SymbolTable.idOf_lt_size_iff _ _).2 hmem)
  exact hg.isAsDeclared h (List.mem_of_getElem? hitems)

/-- With a nonterminal, a state goes where that leads. -/
theorem goto?_eq_some_iff_leadsTo (hitems : g.states[state]? = some items)
    (hname : name ∈ g.nonterminals) (j : Nat) :
    g.goto? state name = some j ↔ g.LeadsTo items name j := by
  obtain ⟨row, hget, hrow⟩ := Automaton.row_of_rowsFrom hg.tables_eq hitems
  have hnonterminal := (g.mem_nonterminals_iff name).1 hname
  rw [g.goto?_eq_some_iff, and_iff_right hnonterminal, Tables.goto?_eq_some_iff_of_row hget,
    Automaton.gotos_row hrow hnonterminal.2, hg.leadsTo_iff]

end IsBuiltFrom

/-- The tables of a grammar are the declared ones. In each state, the cell of a terminal holds what is
declared and nothing else, each action once; and with a nonterminal, the state goes where the nonterminal
leads, if it waits for it, and nowhere else. -/
theorem tables_as_declared {rules : List Rule} {g : Grammar} (h : (build rules).result = .ok g)
    {state : Nat} {items : ItemSet} (hitems : g.states[state]? = some items) :
    (∀ name ∈ g.terminals, g.IsAsDeclared items name (g.actions state name)) ∧
    ∀ name ∈ g.nonterminals, (∀ j, g.goto? state name = some j ↔ g.LeadsTo items name j) ∧
      (g.Observes items name → ∃ j, g.goto? state name = some j) := by
  obtain ⟨first, rest, rfl, hg⟩ := isBuiltFrom_of_build h
  refine ⟨fun name hname => hg.isAsDeclared_actions hitems hname, fun name hname => ?_⟩
  have hgoto := hg.goto?_eq_some_iff_leadsTo hitems hname
  refine ⟨hgoto, fun hobserves => ?_⟩
  obtain ⟨j, hj⟩ := hg.exists_leadsTo (List.mem_of_getElem? hitems) hobserves
  exact ⟨j, (hgoto j).2 hj⟩

/-- A name can be put together to a unit, a term or a sum. The rule that makes a unit of it has a guard. -/
def units : List Rule :=
  [ { lhs := ⟨"sum", none⟩, rhs := [⟨"name", none⟩] },
    { lhs := ⟨"sum", none⟩, rhs := [⟨"term", none⟩] },
    { lhs := ⟨"term", none⟩, rhs := [⟨"name", none⟩] },
    { lhs := ⟨"term", none⟩, rhs := [⟨"unit", none⟩] },
    { lhs := ⟨"unit", none⟩
      rhs := [⟨"name", none⟩]
      condition := some ⟨.read ⟨.named "name", "kind"⟩, .literal "unit"⟩ } ]

/-- After a name, the guarded rule can be reduced, and the later of the two that have no guard; and a
term leads somewhere from the first state. -/
theorem tables_units_as_declared : ∃ g items items', (build units).result = .ok g ∧
    g.states[4]? = some items ∧ endName ∈ g.terminals ∧
    (∀ act, g.Declares items endName act ↔ act ∈ [.reduce 3, .reduce 5]) ∧
    g.states[0]? = some items' ∧ "term" ∈ g.nonterminals ∧ g.LeadsTo items' "term" 2 := by
  have hbuilt : (build units).result.map (fun g =>
      ([g.states[4]?.isSome, g.states[0]?.isSome, endName ∈ g.terminals, "term" ∈ g.nonterminals],
        g.actions 4 endName, g.goto? 0 "term")) =
      .ok ([true, true, true, true], [.reduce 3, .reduce 5], some 2) := by
    decide +kernel
  obtain ⟨g, hg, he⟩ := exists_of_map_eq_ok hbuilt
  simp only [Prod.mk.injEq, List.cons.injEq, decide_eq_true_eq, Option.isSome_iff_exists] at he
  obtain ⟨⟨⟨items, hitems⟩, ⟨items', hitems'⟩, hend, hterm, -⟩, hactions, hgoto⟩ := he
  have hcell := (tables_as_declared hg hitems).1 endName hend
  have hleads := (tables_as_declared hg hitems').2 "term" hterm
  refine ⟨g, items, items', hg, hitems, hend, fun act => ?_, hitems', hterm, (hleads.1 2).1 hgoto⟩
  rw [← hcell.mem_iff, hactions]

end Grammar

end GuardedGrammar
