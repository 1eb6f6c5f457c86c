/-
  What a grammar that has been built knows about the terminals ahead.

  What the leaves of a parse tree begin with is in the FIRST set of its symbol, and if it has no leaves
  its symbol can vanish (`startsWith_leaves`).  So the terminal that comes after a tree, be it the first
  leaf of the trees that stand behind it or what comes after all of them, is in the FOLLOW set of its
  symbol (`follow_of_forest`).
-/
import GuardedGrammar.Proofs.ParseTree
import GuardedGrammar.Proofs.RuleAutomaton

namespace GuardedGrammar

namespace Grammar

/-- The terminals that can come after a symbol. -/
def followOf (g : Grammar) (symbol : Nat) : SortedSet Nat := FollowSets.of g.automaton.follow symbol

/-- The numbers of names. -/
def idsOf (g : Grammar) (names : List String) : List Nat := names.map g.names.idOf

namespace IsBuiltFrom

variable {g : Grammar} {first : Rule} {rest : List Rule} (hg : g.IsBuiltFrom first rest)
include hg

/-! ## FIRST and FOLLOW -/

theorem within_first : g.first.Within g.automaton.nonterminals g.names.size := by
  rw [hg.first_eq]
  exact FirstSets.within_settled _ _ _

/-- Only terminals come after a symbol. -/
theorem terminal_of_mem_follow {symbol t : Nat} (ht : t ∈ g.followOf symbol) :
    g.automaton.nonterminals ≤ t ∧ t < g.names.size :=
  hg.wellFormed.follow symbol t ht

theorem lhs_lt {p : Nat} {q : Production} (hq : g.automaton.productions[p]? = some q) :
    q.lhs < g.automaton.nonterminals := by
  rw [(hg.rules_of_production hq).2]
  exact (hg.idOf_lt_nonterminals_iff _).2 ⟨_, hg.rule_mem hq, rfl⟩

/-! What a right-hand side can begin with, its left-hand side can begin with, and it vanishes if its
right-hand side does; a terminal begins with itself. -/

theorem first_of_begins {p : Nat} {q : Production} (hq : g.automaton.productions[p]? = some q)
    {t : Nat} (ht : t ∈ (g.first.ofSentence q.rhs).1) : t ∈ g.first.of q.lhs := by
  rw [hg.first_eq] at ht ⊢
  exact FirstSets.mem_of_settled (List.mem_of_getElem? hq)
    ((hg.lhs_lt hq).trans hg.nonterminals_lt_size) ht

theorem isNullable_of_vanishes {p : Nat} {q : Production}
    (hq : g.automaton.productions[p]? = some q) (h : (g.first.ofSentence q.rhs).2 = true) :
    g.first.isNullable q.lhs = true := by
  rw [hg.first_eq] at h ⊢
  exact FirstSets.isNullable_settled (List.mem_of_getElem? hq)
    ((hg.lhs_lt hq).trans hg.nonterminals_lt_size) h

theorem mem_first_self {t : Nat} (ht : g.automaton.nonterminals ≤ t ∧ t < g.names.size) :
    t ∈ g.first.of t := by
  rw [hg.first_eq]
  exact FirstSets.mem_of_settled_of_terminal ht.1 ht.2

/-- What can begin behind a nonterminal on a right-hand side comes after it. -/
theorem follow_of_begins {p : Nat} {q : Production} (hq : g.automaton.productions[p]? = some q)
    {before after : List Nat} {symbol : Nat} (hrhs : q.rhs = before ++ symbol :: after)
    (hsymbol : symbol < g.automaton.nonterminals) {t : Nat}
    (ht : t ∈ (g.first.ofSentence after).1) : t ∈ g.followOf symbol := by
  rw [followOf, hg.follow_eq]
  exact FollowSets.mem_of_settled_of_begins hg.within_first
    (List.mem_of_getElem? hq) hrhs hsymbol ht

/-- If all behind it can vanish, then what comes after the left-hand side comes after it. -/
theorem follow_of_vanishes {p : Nat} {q : Production} (hq : g.automaton.productions[p]? = some q)
    {before after : List Nat} {symbol : Nat} (hrhs : q.rhs = before ++ symbol :: after)
    (hsymbol : symbol < g.automaton.nonterminals)
    (hafter : (g.first.ofSentence after).2 = true) {t : Nat} (ht : t ∈ g.followOf q.lhs) :
    t ∈ g.followOf symbol := by
  rw [followOf, hg.follow_eq] at ht ⊢
  exact FollowSets.mem_of_settled_of_vanishes hg.within_first
    (List.mem_of_getElem? hq) hrhs hsymbol hafter ht

/-- The end marker comes after the start symbol. -/
theorem endMarker_mem_follow :
    g.names.idOf endName ∈ g.followOf (g.names.idOf startName) := by
  have hstart : startSymbol g.automaton.productions = g.names.idOf startName := by
    rw [startSymbol, hg.production_start]
    rfl
  have hlt : g.names.idOf startName < g.automaton.nonterminals := by
    refine (hg.idOf_lt_nonterminals_iff _).2 ⟨Rule.start first.lhs.name, ?_, rfl⟩
    rw [hg.rules_eq]
    exact List.mem_cons_self
  rw [followOf, hg.follow_eq, hstart, hg.idOf_endName]
  exact FollowSets.endMarker_mem_settled _ hlt

/-- The end marker comes after the symbol that inputs are derived from. -/
theorem endMarker_mem_follow_root (hlt : g.names.idOf first.lhs.name < g.automaton.nonterminals) :
    g.names.idOf endName ∈ g.followOf (g.names.idOf first.lhs.name) := by
  have hrhs : ((Rule.start first.lhs.name).encode g.names).rhs =
      [] ++ g.names.idOf first.lhs.name :: [] := rfl
  exact hg.follow_of_vanishes hg.production_start hrhs hlt rfl hg.endMarker_mem_follow

end IsBuiltFrom

/-! ## Leaves -/

/-- The name stands on a right-hand side. -/
def Occurs (g : Grammar) (name : String) : Prop := ∃ r ∈ g.rules, name ∈ r.rhsNames

/-- Terminals begin with one of a set, or they are none and may be none. -/
def StartsWith (g : Grammar) (ts : List Terminal) (begins : SortedSet Nat) (vanishes : Bool) :
    Prop :=
  match ts with
  | [] => vanishes = true
  | t :: _ => g.names.idOf t.name ∈ begins

section

variable {g : Grammar} {ts ts' : List Terminal} {begins begins' : SortedSet Nat}
  {vanishes vanishes' : Bool}

/-- More to begin with, and vanishing if it did before. -/
theorem StartsWith.mono (h : g.StartsWith ts begins vanishes)
    (hbegins : ∀ t ∈ begins, t ∈ begins') (hvanishes : vanishes = true → vanishes' = true) :
    g.StartsWith ts begins' vanishes' := by
  cases ts with
  | nil => exact hvanishes h
  | cons t _ => exact hbegins _ h

/-- What terminals begin with counts, and what comes behind them does only if there are none. -/
theorem StartsWith.append {s : Nat} {rest : List Nat}
    (h : g.StartsWith ts (g.first.of s) (g.first.isNullable s))
    (h' : g.StartsWith ts' (g.first.ofSentence rest).1 (g.first.ofSentence rest).2) :
    g.StartsWith (ts ++ ts') (g.first.ofSentence (s :: rest)).1
      (g.first.ofSentence (s :: rest)).2 := by
  unfold FirstSets.ofSentence
  cases ts with
  | nil =>
    have hnull : g.first.isNullable s = true := h
    rw [if_pos hnull]
    exact h'.mono (fun t ht => (SortedSet.mem_union _ _ _).2 (.inr ht)) id
  | cons t _ =>
    split
    · exact (SortedSet.mem_union _ _ _).2 (.inl h)
    · exact h

end

theorem rhs_encode (g : Grammar) (r : Rule) : (r.encode g.names).rhs = g.idsOf r.rhsNames := by
  show r.rhs.map (fun s => g.names.idOf s.name) = (r.rhs.map Symbol.name).map g.names.idOf
  rw [List.map_map]
  rfl

namespace IsBuiltFrom

variable {g : Grammar} {first : Rule} {rest : List Rule} (hg : g.IsBuiltFrom first rest)
include hg

/-- A name on a right-hand side has a number. -/
theorem mem_names_of_occurs {name : String} (h : g.Occurs name) : name ∈ g.names.names := by
  obtain ⟨r, hr, hname⟩ := h
  obtain ⟨s, hs, rfl⟩ := List.mem_map.1 hname
  exact hg.mem_names hr (List.mem_cons_of_mem _ hs)

/-- A terminal that stands on a right-hand side has the number of a terminal. -/
theorem terminal_of_occurs {name : String} (h : g.Occurs name)
    (hterminal : IsTerminal (first :: rest) name) :
    g.automaton.nonterminals ≤ g.names.idOf name ∧ g.names.idOf name < g.names.size := by
  refine ⟨Nat.not_lt.1 fun hlt => ?_,
    (SymbolTable.idOf_lt_size_iff _ _).2 (hg.mem_names_of_occurs h)⟩
  obtain ⟨r, hr, hname⟩ := (hg.idOf_lt_nonterminals_iff name).1 hlt
  rw [hg.rules_eq] at hr
  rcases List.mem_cons.1 hr with rfl | hr
  · obtain ⟨r', hr', hmem⟩ := h
    obtain ⟨s, hs, rfl⟩ := List.mem_map.1 hmem
    exact hg.name_ne_startName hr' hs hname.symm
  · exact hterminal r hr hname

/-- A rule that was given is a production other than the start production. -/
theorem exists_production {r : Rule} (hr : r ∈ first :: rest) :
    ∃ p, p ≠ startProduction ∧ g.automaton.productions[p]? = some (r.encode g.names) ∧
      g.rule p = r := by
  obtain ⟨i, hi⟩ := List.mem_iff_getElem?.1 hr
  have hget : g.rules[i + 1]? = some r := by rw [hg.rules_eq, List.getElem?_cons_succ, hi]
  exact ⟨i + 1, Nat.succ_ne_zero i, hg.production_of_rules hget, by rw [rule, hget]; rfl⟩

theorem mem_rules {r : Rule} (hr : r ∈ first :: rest) : r ∈ g.rules := by
  rw [hg.rules_eq]
  exact List.mem_cons_of_mem _ hr

/-- What the leaves of trees begin with, by what their symbols can begin with. -/
theorem startsWith_leaves :
    (∀ tree : ParseTree, tree.Valid (first :: rest) → g.Occurs tree.symbol →
      g.StartsWith tree.leaves (g.first.of (g.names.idOf tree.symbol))
        (g.first.isNullable (g.names.idOf tree.symbol))) ∧
    ∀ trees : List ParseTree, (∀ tree ∈ trees, tree.Valid (first :: rest) ∧ g.Occurs tree.symbol) →
      g.StartsWith (ParseTree.leavesAll trees)
        (g.first.ofSentence (g.idsOf (trees.map ParseTree.symbol))).1
        (g.first.ofSentence (g.idsOf (trees.map ParseTree.symbol))).2 := by
  refine ParseTree.induction ?leaf ?node ?nil ?cons
  case leaf =>
    intro t hvalid hoccurs
    cases hvalid with
    | leaf hname => exact hg.mem_first_self (hg.terminal_of_occurs hoccurs hname)
  case node =>
    intro rule children ih hvalid _
    cases hvalid with
    | node hrule hsymbols hchildren =>
      obtain ⟨p, -, hq, -⟩ := hg.exists_production hrule
      have hstarts := ih fun tree htree => by
        refine ⟨hchildren tree htree, rule, hg.mem_rules hrule, ?_⟩
        rw [← hsymbols]
        exact List.mem_map_of_mem htree
      rw [hsymbols, ← rhs_encode] at hstarts
      rw [ParseTree.leaves_node]
      exact hstarts.mono (fun _ => hg.first_of_begins hq) (hg.isNullable_of_vanishes hq)
  case nil => exact fun _ => rfl
  case cons =>
    intro tree trees hfirst hrest hall
    obtain ⟨⟨hvalid, hoccurs⟩, htrees⟩ := List.forall_mem_cons.1 hall
    exact (hfirst hvalid hoccurs).append (hrest htrees)

/-- The terminal that comes after the first of some trees can come after its symbol, if what comes
after all of them can come after the left-hand side. -/
theorem follow_of_forest {p : Nat} {q : Production} (hq : g.automaton.productions[p]? = some q)
    {before : List Nat} {symbol : Nat} {trees : List ParseTree}
    (hrhs : q.rhs = before ++ symbol :: g.idsOf (trees.map ParseTree.symbol))
    (hsymbol : symbol < g.automaton.nonterminals)
    (htrees : ∀ tree ∈ trees, tree.Valid (first :: rest) ∧ g.Occurs tree.symbol)
    {t t' : Terminal} {after after' : List Terminal}
    (hafter : g.names.idOf t.name ∈ g.followOf q.lhs)
    (hleaves : ParseTree.leavesAll trees ++ t :: after = t' :: after') :
    g.names.idOf t'.name ∈ g.followOf symbol := by
  have hstarts := hg.startsWith_leaves.2 trees htrees
  -- without leaves, the other trees derive nothing, and what comes after all of them is next
  cases hall : ParseTree.leavesAll trees with
  | nil =>
    rw [hall] at hstarts hleaves
    obtain ⟨rfl, -⟩ := List.cons.inj hleaves
    exact hg.follow_of_vanishes hq hrhs hsymbol hstarts hafter
  | cons t'' _ =>
    rw [hall] at hstarts hleaves
    obtain ⟨rfl, -⟩ := List.cons.inj hleaves
    exact hg.follow_of_begins hq hrhs hsymbol hstarts

end IsBuiltFrom

end Grammar

end GuardedGrammar
