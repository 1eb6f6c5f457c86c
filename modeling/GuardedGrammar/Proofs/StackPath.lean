/-
  Stacks that are paths through the automaton.

  From the bottom up, the entries of such a stack hold the states that the automaton goes through when
  it reads their symbols.  An item of the state on top then knows the top of the stack: what the item
  has read of its right-hand side lies there, symbol for symbol, and the state below holds the same
  item with nothing read (`spells_of_mem`).

  This is what makes the tables safe.  Where a cell holds a reduction, the right-hand side is on the
  stack and the state below it has somewhere to go with the left-hand side
  (`reducible_of_mem_actions`); where it accepts, the stack holds one symbol (`of_accept_mem_actions`),
  because nothing waits for the start symbol and so the start production begins in the first state only.
-/
import GuardedGrammar.Parse.Run
import GuardedGrammar.Proofs.TableLookup

namespace GuardedGrammar

namespace Grammar

/-- One state leads to another on a symbol: it goes there with a nonterminal, or shifts a terminal. -/
def Leads (g : Grammar) (source : Nat) (name : String) (target : Nat) : Prop :=
  g.goto? source name = some target ∨ .shift target ∈ g.actions source name

/-- The states of a stack are those that the automaton goes through when it reads the symbols, from
the bottom, where it is in its first state and has read nothing. -/
inductive IsPath (g : Grammar) : List StackEntry → Prop
  | bottom : IsPath g [Session.bottom]
  | push {entry : StackEntry} {stack : List StackEntry} (path : IsPath g stack)
      (leads : g.Leads (StackEntry.topState stack) entry.symbol entry.state) :
      IsPath g (entry :: stack)

/-- What an item has read lies on top of a stack, and the state below holds it with nothing read. -/
structure Spells (g : Grammar) (stack : List StackEntry) (x : Item) : Prop where
  dot_lt : x.dot < stack.length
  symbols : (stack.take x.dot).reverse.map (·.symbol) =
    ((g.rule x.production).rhs.map Symbol.name).take x.dot
  below : ∃ items, g.states[StackEntry.topState (stack.drop x.dot)]? = some items ∧
    ⟨x.production, 0⟩ ∈ items

/-- A rule can be reduced: its right-hand side lies on top of the stack, and the state below goes
somewhere with its left-hand side. -/
structure Reducible (g : Grammar) (stack : List StackEntry) (p : Nat) : Prop where
  ne_start : p ≠ startProduction
  production : ∃ q, g.automaton.productions[p]? = some q
  length_lt : (g.rule p).rhs.length < stack.length
  symbols : (stack.take (g.rule p).rhs.length).reverse.map (·.symbol) =
    (g.rule p).rhs.map Symbol.name
  goto : ∃ j, g.goto? (StackEntry.topState (stack.drop (g.rule p).rhs.length))
    (g.rule p).lhs.name = some j

variable {g : Grammar} {first : Rule} {rest : List Rule} {stack : List StackEntry}

/-! ## Parts of a path -/

theorem IsPath.ne_nil (h : g.IsPath stack) : stack ≠ [] := by
  cases h <;> exact List.cons_ne_nil _ _

/-- What a rule is reduced on is not the whole stack. -/
theorem Reducible.drop_ne_nil {p : Nat} (h : g.Reducible stack p) :
    stack.drop (g.rule p).rhs.length ≠ [] := by
  rw [Ne, List.drop_eq_nil_iff]
  exact Nat.not_le.2 h.length_lt

/-- What is left of a path when entries are taken off is a path. -/
theorem IsPath.drop (h : g.IsPath stack) {n : Nat} (hn : n < stack.length) :
    g.IsPath (stack.drop n) := by
  induction h generalizing n with
  | bottom =>
    obtain rfl : n = 0 := Nat.lt_one_iff.1 hn
    exact .bottom
  | push path leads ih =>
    cases n with
    | zero => exact path.push leads
    | succ n => exact ih (Nat.lt_of_succ_lt_succ hn)

section

variable (hg : g.IsBuiltFrom first rest)
include hg

/-! ## The items on top of a path -/

/-- One state leads to another if that holds what its items become when they read the symbol. -/
theorem Leads.states {source target : Nat} {name : String} {items : ItemSet}
    (h : g.Leads source name target) (hitems : g.states[source]? = some items) :
    g.states[target]? = some (successor g.automaton.productions g.automaton.nonterminals items
      (g.names.idOf name)) := by
  rcases h with h | h
  · exact hg.getElem?_of_goto? hitems h
  · exact hg.mem_of_shift_mem_actions hitems h

/-- The state on top of a path is one of the states of the automaton: the first, or a successor. -/
theorem IsPath.exists_items (h : g.IsPath stack) :
    ∃ items, g.states[StackEntry.topState stack]? = some items := by
  induction h with
  | bottom => exact ⟨_, hg.states_zero⟩
  | push path leads ih =>
    obtain ⟨items, hitems⟩ := ih
    exact ⟨_, leads.states hg hitems⟩

/-- On a path, the items on top are those of the first state, or what the items below become when they
read the symbol on top. -/
theorem IsPath.items_cases (h : g.IsPath stack) {items : ItemSet}
    (hitems : g.states[StackEntry.topState stack]? = some items) :
    stack = [Session.bottom] ∧
        items = startState g.automaton.productions g.automaton.nonterminals ∨
      ∃ entry lower below, stack = entry :: lower ∧ g.IsPath lower ∧
        g.states[StackEntry.topState lower]? = some below ∧
        items = successor g.automaton.productions g.automaton.nonterminals below
          (g.names.idOf entry.symbol) := by
  cases h with
  | bottom => exact .inl ⟨rfl, Option.some.inj (hitems.symm.trans hg.states_zero)⟩
  | @push entry lower path leads =>
    obtain ⟨below, hbelow⟩ := path.exists_items hg
    have htop := hitems.symm.trans (leads.states hg hbelow)
    exact .inr ⟨entry, lower, below, rfl, path, hbelow, Option.some.inj htop⟩

/-- An item with nothing read is the beginning of the start production, on an otherwise empty stack,
or the state waits for its left-hand side. -/
theorem IsPath.zero_mem_cases (h : g.IsPath stack) {items : ItemSet}
    (hitems : g.states[StackEntry.topState stack]? = some items) {p : Nat} (hp : ⟨p, 0⟩ ∈ items) :
    p = startProduction ∧ stack = [Session.bottom] ∨
      (⟨p, 0⟩ : Item).Opens g.automaton.productions g.automaton.nonterminals items := by
  rcases h.items_cases hg hitems with ⟨rfl, rfl⟩ | ⟨entry, lower, below, rfl, -, -, rfl⟩
  · rcases mem_startState_cases hp with hx | hopens
    · exact .inl ⟨congrArg Item.production hx, rfl⟩
    · exact .inr hopens
  · exact .inr (opens_of_zero_mem_successor hp)

/-- The start production begins in the first state only. -/
theorem IsPath.eq_bottom_of_start_mem (h : g.IsPath stack) {items : ItemSet}
    (hitems : g.states[StackEntry.topState stack]? = some items)
    (hp : ⟨startProduction, 0⟩ ∈ items) : stack = [Session.bottom] := by
  rcases h.zero_mem_cases hg hitems hp with ⟨-, hbottom⟩ | hopens
  · exact hbottom
  · obtain ⟨q, hq, -, i, -, ho⟩ := hopens.awaited
    exact absurd ho (hg.observed?_ne_start hq)

/-- A state that holds the beginning of a production has somewhere to go with its left-hand side. -/
theorem IsPath.exists_goto?_of_zero_mem (h : g.IsPath stack) {items : ItemSet}
    (hitems : g.states[StackEntry.topState stack]? = some items) {p : Nat} (hp : ⟨p, 0⟩ ∈ items)
    (hne : p ≠ startProduction) :
    ∃ j, g.goto? (StackEntry.topState stack) (g.rule p).lhs.name = some j := by
  rcases h.zero_mem_cases hg hitems hp with ⟨hstart, -⟩ | hopens
  · exact absurd hstart hne
  · obtain ⟨q, hq, hlt, i, hi, ho⟩ := hopens.awaited
    have hlhs : q.lhs = g.names.idOf (g.rule p).lhs.name := by
      rw [(hg.rules_of_production hq).2]
      rfl
    rw [hlhs] at hlt ho
    exact hg.exists_goto? hitems hi ho
      (hg.mem_names (hg.rule_mem hq) List.mem_cons_self) hlt

/-- An item of the state on top is of a production that there is. -/
theorem IsPath.production_of_mem (h : g.IsPath stack) {items : ItemSet}
    (hitems : g.states[StackEntry.topState stack]? = some items) {x : Item} (hx : x ∈ items) :
    ∃ q, g.automaton.productions[x.production]? = some q := by
  obtain ⟨p, d⟩ := x
  cases d with
  | zero =>
    rcases h.zero_mem_cases hg hitems hx with ⟨rfl, -⟩ | hopens
    · exact ⟨_, hg.production_start⟩
    · obtain ⟨q, hq, -⟩ := hopens.awaited
      exact ⟨q, hq⟩
  | succ d =>
    rcases h.items_cases hg hitems with ⟨-, rfl⟩ | ⟨entry, lower, below, -, -, -, rfl⟩
    · exact absurd (dot_of_mem_startState hx) (Nat.succ_ne_zero d)
    · obtain ⟨q, hq, -⟩ := (Item.observed?_eq_some_iff _ _).1 (mem_of_succ_mem_successor hx).2
      exact ⟨q, hq⟩

/-- The states of a path are closed: they hold the productions that they wait for, from their
beginning. -/
theorem IsPath.mem_of_opens (h : g.IsPath stack) {items : ItemSet}
    (hitems : g.states[StackEntry.topState stack]? = some items) {x : Item}
    (hx : x.Opens g.automaton.productions g.automaton.nonterminals items) : x ∈ items := by
  rcases h.items_cases hg hitems with ⟨-, rfl⟩ | ⟨entry, lower, below, -, -, -, rfl⟩
  · exact mem_closure_of_opens hx
  · exact mem_closure_of_opens hx

/-- An entry on a path moves the items that wait for its symbol past it. -/
theorem IsPath.advance_mem {entry : StackEntry} (h : g.IsPath (entry :: stack))
    (hstack : g.IsPath stack) {items : ItemSet}
    (hitems : g.states[StackEntry.topState stack]? = some items) {x : Item} (hx : x ∈ items)
    (ho : x.observed? g.automaton.productions = some (g.names.idOf entry.symbol)) :
    ∃ above, g.states[entry.state]? = some above ∧ x.advance ∈ above := by
  cases h with
  | bottom => exact absurd rfl hstack.ne_nil
  | push _ leads => exact ⟨_, leads.states hg hitems, advance_mem_successor hx ho⟩

/-- The top of a path spells what the items of its state have read. -/
theorem IsPath.spells_of_mem (h : g.IsPath stack) {items : ItemSet}
    (hitems : g.states[StackEntry.topState stack]? = some items) {x : Item} (hx : x ∈ items) :
    g.Spells stack x := by
  obtain ⟨p, d⟩ := x
  induction d generalizing stack items with
  | zero => exact ⟨List.length_pos_iff.2 h.ne_nil, rfl, items, hitems, hx⟩
  | succ d ih =>
    rcases h.items_cases hg hitems with ⟨-, rfl⟩ | ⟨entry, lower, below, rfl, path, hbelow, rfl⟩
    · exact absurd (dot_of_mem_startState hx) (Nat.succ_ne_zero d)
    -- the item has read the symbol of the top entry, and was in the state below before that
    · obtain ⟨hmem, ho⟩ := mem_of_succ_mem_successor hx
      obtain ⟨hlt, hsymbols, hstart⟩ := ih path hbelow hmem
      obtain ⟨hrule, s, hs, hid⟩ := hg.observed?_eq_some ho
      have hname : s.name = entry.symbol :=
        SymbolTable.idOf_inj (hg.mem_names hrule (List.mem_cons_of_mem _
          (List.mem_of_getElem? hs))) hid
      have hget : ((g.rule p).rhs.map Symbol.name)[d]? = some entry.symbol := by
        rw [List.getElem?_map, hs, ← hname]
        rfl
      refine ⟨Nat.succ_lt_succ hlt, ?_, hstart⟩
      show ((entry :: lower.take d).reverse.map (·.symbol)) =
        ((g.rule p).rhs.map Symbol.name).take (d + 1)
      rw [List.take_add_one, hget, List.reverse_cons, List.map_append]
      exact congrArg (· ++ [entry.symbol]) hsymbols

/-! ## What the actions rely on -/

/-- Where a cell holds a reduction, the rule can be reduced. -/
theorem IsPath.reducible_of_mem_actions (h : g.IsPath stack) {p : Nat} {name : String}
    (ha : .reduce p ∈ g.actions (StackEntry.topState stack) name) : g.Reducible stack p := by
  obtain ⟨items, hitems⟩ := h.exists_items hg
  obtain ⟨hne, ⟨p, d⟩, hx, rfl, ho⟩ := hg.mem_of_reduce_mem_actions hitems ha
  obtain ⟨q, hq⟩ := h.production_of_mem hg hitems hx
  obtain ⟨hlt, hsymbols, below, hbelow, hzero⟩ := h.spells_of_mem hg hitems hx
  -- the item waits for nothing, and has not read more than the right-hand side
  have hd : d = (g.rule p).rhs.length := by
    have hle : (g.rule p).rhs.length ≤ d := hg.length_le_of_observed?_eq_none hq ho
    have hlen := congrArg List.length hsymbols
    simp only [List.length_map, List.length_reverse, List.length_take] at hlen
    dsimp only at hlt hlen
    omega
  subst hd
  refine ⟨hne, ⟨q, hq⟩, hlt, ?_, ?_⟩
  · rw [hsymbols, List.take_of_length_le (List.length_map _).le]
  · exact (h.drop hlt).exists_goto?_of_zero_mem hg hbelow hzero hne

/-- Where a cell accepts, the terminal is the end marker, and the symbol that inputs are derived from
is all that lies on the stack. -/
theorem IsPath.of_accept_mem_actions (h : g.IsPath stack) {name : String}
    (ha : .accept ∈ g.actions (StackEntry.topState stack) name) :
    name = endName ∧ ∃ entry, stack = [entry, Session.bottom] ∧ entry.symbol = first.lhs.name := by
  obtain ⟨items, hitems⟩ := h.exists_items hg
  obtain ⟨hname, ⟨p, d⟩, hx, rfl, ho⟩ := hg.mem_of_accept_mem_actions hitems ha
  obtain ⟨hlt, hsymbols, below, hbelow, hzero⟩ := h.spells_of_mem hg hitems hx
  -- below what has been read there is only the bottom
  have hbottom := (h.drop hlt).eq_bottom_of_start_mem hg hbelow hzero
  have hle := hg.length_le_of_observed?_eq_none hg.production_start ho
  rw [hg.rule_start] at hsymbols hle
  obtain ⟨entry, tail, rfl⟩ := List.exists_cons_of_ne_nil h.ne_nil
  have hlen := congrArg List.length hbottom
  have hread := congrArg List.length hsymbols
  simp only [List.length_map, List.length_reverse, List.length_take, List.length_drop,
    List.length_cons, List.length_nil, Rule.start] at hlen hread hle
  obtain rfl : d = 1 := by omega
  refine ⟨hname, entry, congrArg (entry :: ·) hbottom, ?_⟩
  simpa [Rule.start] using hsymbols

end

end Grammar

end GuardedGrammar
