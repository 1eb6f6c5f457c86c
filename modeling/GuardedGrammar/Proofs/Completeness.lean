/-
  Every sentence of an SLR grammar is accepted.

  If the terminal that comes decides between the reductions of a state (`IsSlr`), and there are no
  guards or actions that could fail, then a parse does what a parse tree of its input says: where a
  state waits for the symbol of a tree and the leaves of the tree come, the tree is put together on the
  stack (`runs_tree`).  The proof goes through the tree: a leaf is shifted, and below a node the closure
  of the state holds the rule from its beginning, its trees are put together one after the other, and
  the cell then holds the reduction of the rule and no other.

  There is one exception.  Where a cell accepts, no reduction has been entered.  But then only the end
  marker is left of the input, and the parse succeeds there and then; so what is shown of a tree is that
  the parse succeeds if it does so once the tree has been put together.
-/
import GuardedGrammar.Proofs.Lookahead
import GuardedGrammar.Proofs.Trace

namespace GuardedGrammar

namespace Grammar

/-- A reduction that can be carried out when the terminal comes: all of the production has been read,
and the terminal can come after its left-hand side. -/
structure ReduceReady (g : Grammar) (name : String) (x : Item) : Prop where
  ne_start : x.production ≠ startProduction
  complete : x.observed? g.automaton.productions = none
  follow : g.names.idOf name ∈ g.followOf (g.automaton.lhsOf x.production)

/-- In no state can a terminal that is not accepted call for two reductions. -/
def IsSlr (g : Grammar) : Prop :=
  ∀ state items, g.states[state]? = some items → ∀ name ∈ g.terminals,
    g.actions state name ≠ [.accept] →
      ∀ x ∈ items, ∀ y ∈ items, g.ReduceReady name x → g.ReduceReady name y → x = y

instance (g : Grammar) (name : String) (x : Item) : Decidable (g.ReduceReady name x) :=
  decidable_of_iff (x.production ≠ startProduction ∧
      x.observed? g.automaton.productions = none ∧
      g.names.idOf name ∈ g.followOf (g.automaton.lhsOf x.production))
    ⟨fun ⟨hne, hcomplete, hfollow⟩ => ⟨hne, hcomplete, hfollow⟩,
      fun ⟨hne, hcomplete, hfollow⟩ => ⟨hne, hcomplete, hfollow⟩⟩

instance (g : Grammar) : Decidable g.IsSlr :=
  decidable_of_iff (∀ s ∈ g.states.zipIdx, ∀ name ∈ g.terminals, g.actions s.2 name ≠ [.accept] →
      ∀ x ∈ s.1.toList, ∀ y ∈ s.1.toList, g.ReduceReady name x → g.ReduceReady name y → x = y)
    ⟨fun h state items hitems => h (items, state) (List.mem_zipIdx_iff_getElem?.2 hitems),
      fun h s hs => h s.2 s.1 (List.mem_zipIdx_iff_getElem?.1 hs)⟩

/-- The parse succeeds in so many steps at most, having shifted so many terminals. -/
def Succeeds (g : Grammar) (source : Source) (shifts : Nat) (c : Configuration) : Prop :=
  ∃ n stats, (c.run g source n).result? = some (.ok stats) ∧ stats.shifts = shifts

/-- A parse has the terminals `ts` of its input before it, the first of which it deals with next. -/
structure Faces (g : Grammar) (input : List Terminal) (c : Configuration) (ts : List Terminal) :
    Prop where
  path : g.IsPath c.session.stack
  status : ∃ t, ts.head? = some t ∧ c.status = .reading t
  ahead : input.drop c.session.stats.shifts = ts
  asked : c.session.stats.terminals = c.session.stats.shifts + 1

variable {g : Grammar} {first : Rule} {rest : List Rule} {source : Source} {c : Configuration}
  {ts : List Terminal} {t : Terminal}

/-- One step more, and the parse succeeds from one step before. -/
theorem Succeeds.of_next {k : Nat} (h : g.Succeeds source k (c.next g source)) :
    g.Succeeds source k c := by
  obtain ⟨n, stats, hok, hshifts⟩ := h
  exact ⟨n + 1, stats, by rw [Configuration.run_succ, hok], hshifts⟩

theorem mem_terminals {name : String} {id : Nat} (h : g.terminalId? name = some id) :
    name ∈ g.terminals := by
  obtain ⟨⟨hmem, rfl⟩, hge⟩ := (g.terminalId?_eq_some_iff name id).1 h
  exact (g.mem_terminals_iff name).2 ⟨hmem, hge⟩

/-! ## Steps that are determined

If the tables leave no choice, a step is determined by the state on top and by the terminal ahead.
There are no guards that might not hold, and no actions that might fail. -/

section

variable (hg : g.IsBuiltFrom first rest) {w : List Terminal} {e : Terminal}
include hg

/-- With one more entry on the stack, the items that wait for its symbol are in the new state, past
it. -/
theorem Faces.advance_mem {input ts' : List Terminal} {c' : Configuration} {entry : StackEntry}
    (h' : g.Faces input c' ts') (h : g.Faces input c ts)
    (hstack : c'.session.stack = entry :: c.session.stack) {items : ItemSet}
    (hitems : g.states[c.session.state]? = some items) {x : Item} (hx : x ∈ items)
    (ho : x.observed? g.automaton.productions = some (g.names.idOf entry.symbol)) :
    ∃ above, g.states[c'.session.state]? = some above ∧ x.advance ∈ above := by
  have hpath := h'.path
  rw [hstack] at hpath
  show ∃ above, g.states[StackEntry.topState c'.session.stack]? = some above ∧ _
  rw [hstack]
  exact hpath.advance_mem hg h.path hitems hx ho

/-- Where a cell holds a shift and the source answers, the step shifts. -/
theorem Effect.of_shift {s s' : Session} {rules : List Rule} {result : Except ParseError Progress}
    (h : g.Effect source s t rules s' result) {j : Nat}
    (hcell : .shift j ∈ g.actions s.state t.name) {item : Except ParseError Terminal}
    (hitem : (source s.stats.terminals).item = some item) :
    s' = (s.shifted j t).answered ∧ result = Progress.reading <$> item := by
  have honly {a : Action} (ha : a ∈ g.actions s.state t.name) : a = .shift j :=
    (hg.isDecided_actions _ _).eq_of_mem hcell rfl ha
  -- of all that a step can do, only a shift agrees with the cell
  cases h with
  | unknown hid => exact nomatch hid.symm.trans (exists_terminalId?_of_mem_actions hcell)
  | blocked hempty => exact absurd (hempty ▸ hcell) List.not_mem_nil
  | accepts haccept => exact nomatch honly haccept
  | exhausts _ hreply => exact nomatch hreply.symm.trans hitem
  | shifts hshift hreply =>
    injection honly hshift with hj
    obtain rfl := Option.some.inj (hreply.symm.trans hitem)
    exact ⟨by rw [hj], rfl⟩
  | refuses hreduce => exact nomatch honly hreduce
  | reduces hreduce => exact nomatch honly hreduce

/-- Where a cell accepts, so does the step. -/
theorem Effect.of_accept {s s' : Session} {rules : List Rule}
    {result : Except ParseError Progress} (h : g.Effect source s t rules s' result)
    (hcell : .accept ∈ g.actions s.state t.name) : s' = s ∧ result = .ok .accepted := by
  have honly {a : Action} (ha : a ∈ g.actions s.state t.name) : a = .accept :=
    (hg.isDecided_actions _ _).eq_of_mem hcell rfl ha
  -- of all that a step can do, only to accept agrees with the cell
  cases h with
  | unknown hid => exact nomatch hid.symm.trans (exists_terminalId?_of_mem_actions hcell)
  | blocked hempty => exact absurd (hempty ▸ hcell) List.not_mem_nil
  | accepts => exact ⟨rfl, rfl⟩
  | exhausts hshift => exact nomatch honly hshift
  | shifts hshift => exact nomatch honly hshift
  | refuses hreduce => exact nomatch honly hreduce
  | reduces hreduce => exact nomatch honly hreduce

/-- Where a cell holds a shift, the parse goes on with the next terminal. -/
theorem Faces.next_of_shift (hgives : source.Gives (w ++ [e])) {t' : Terminal}
    (h : g.Faces (w ++ [e]) c (t :: t' :: ts)) {j : Nat}
    (hcell : .shift j ∈ g.actions c.session.state t.name) :
    g.Faces (w ++ [e]) (c.next g source) (t' :: ts) ∧
      (c.next g source).session.stack = ⟨j, t.name, t.attributes⟩ :: c.session.stack := by
  obtain ⟨hpath, ⟨_, ht, hstatus⟩, hahead, hasked⟩ := h
  obtain rfl := Option.some.inj ht
  -- the source has been asked once more than has been shifted, so its answer is the next terminal
  have hitem : (source c.session.stats.terminals).item = some (.ok t') := by
    refine hgives _ t' ?_
    rw [hasked, ← List.getElem?_drop, hahead]
    rfl
  obtain ⟨rules, result, heffect, hnext, -⟩ := Configuration.next_spec source hg hpath hstatus
  obtain ⟨hs, rfl⟩ := heffect.of_shift hg hcell hitem
  refine ⟨⟨?_, ⟨t', rfl, hnext⟩, ?_, ?_⟩, ?_⟩
  · rw [hs]
    exact hpath.push (.inr hcell)
  · rw [hs]
    show (w ++ [e]).drop (c.session.stats.shifts + 1) = _
    rw [← List.drop_drop, hahead]
    rfl
  · rw [hs]
    exact congrArg (· + 1) hasked
  · rw [hs]
    rfl

/-- Where a cell accepts, the parse succeeds, because all of the input has been shifted. -/
theorem Faces.succeeds_of_accept (hw : ∀ t ∈ w, t.name ≠ endName)
    (h : g.Faces (w ++ [e]) c (t :: ts))
    (hcell : .accept ∈ g.actions c.session.state t.name) : g.Succeeds source w.length c := by
  obtain ⟨hpath, ⟨_, ht, hstatus⟩, hahead, -⟩ := h
  obtain rfl := Option.some.inj ht
  have hname := (hpath.of_accept_mem_actions hg hcell).1
  -- the terminal is the end marker, which stands at the end of the input only
  have hshifts : c.session.stats.shifts = w.length := by
    have hget : (w ++ [e])[c.session.stats.shifts]? = some t := by
      have := congrArg List.head? hahead
      rwa [List.head?_drop] at this
    obtain ⟨hlt, hget⟩ := List.getElem?_eq_some_iff.1 hget
    rw [List.length_append, List.length_singleton] at hlt
    refine Nat.le_antisymm (Nat.le_of_lt_succ hlt) (Nat.not_lt.1 fun hin => ?_)
    rw [List.getElem_append_left hin] at hget
    exact hw t (hget ▸ List.getElem_mem hin) hname
  obtain ⟨rules, result, heffect, hnext, -⟩ := Configuration.next_spec source hg hpath hstatus
  obtain ⟨hs, rfl⟩ := heffect.of_accept hg hcell
  rw [hs] at hnext
  refine ⟨1, c.session.stats, ?_, hshifts⟩
  rw [Configuration.run_succ]
  exact Configuration.result?_eq_some_iff.2 hnext

/-- Where a cell holds one reduction only, of a rule with neither a guard nor an action, the step carries
it out. -/
theorem Effect.of_reduce {s s' : Session} {rules : List Rule} {result : Except ParseError Progress}
    (h : g.Effect source s t rules s' result) {p : Nat}
    (hcell : .reduce p ∈ g.actions s.state t.name)
    (haccept : .accept ∉ g.actions s.state t.name)
    (honly : ∀ q, .reduce q ∈ g.actions s.state t.name → q = p)
    (hplain : (g.rule p).condition = none ∧ (g.rule p).action = none) :
    result = .ok (.reading t) ∧ ∃ s₁ scope j attributes, g.Tested s s₁ ∧
      s' = s₁.reduced (g.rule p) scope j attributes := by
  have hnoshift {j : Nat} (hshift : .shift j ∈ g.actions s.state t.name) : False :=
    nomatch (hg.isDecided_actions _ _).eq_of_mem hshift rfl hcell
  -- the reduction is the only thing in the cell that can be done, and its rule cannot refuse
  cases h with
  | unknown hid => exact nomatch hid.symm.trans (exists_terminalId?_of_mem_actions hcell)
  | blocked hempty => exact absurd (hempty ▸ hcell) List.not_mem_nil
  | accepts ha => exact absurd ha haccept
  | exhausts hshift => exact (hnoshift hshift).elim
  | shifts hshift => exact (hnoshift hshift).elim
  | refuses hreduce hrule =>
    obtain rfl := honly _ hreduce
    rcases hrule with hrule | hrule
    · exact absurd hplain.1 hrule
    · exact absurd hplain.2 hrule
  | @reduces q j s₀ s₁ scope attributes events hreduce _ hbefore _ hafter =>
    obtain rfl := honly _ hreduce
    exact ⟨rfl, s₁, scope, j, attributes, hbefore.trans hafter, rfl⟩

/-- In an SLR grammar, a reduction that is ready is the only one in its cell. -/
theorem IsBuiltFrom.eq_of_reduce_mem_actions (hslr : g.IsSlr) {state : Nat} {items : ItemSet}
    {name : String} (hitems : g.states[state]? = some items)
    (haccept : .accept ∉ g.actions state name) {x : Item}
    (hx : x ∈ items) (hready : g.ReduceReady name x) {q : Nat}
    (hcell : .reduce q ∈ g.actions state name) : q = x.production := by
  have hname := mem_terminals (exists_terminalId?_of_mem_actions hcell)
  obtain ⟨⟨hne, ⟨y, hy, rfl, ho⟩, s, hs, hcolumn⟩, hge⟩ :=
    hg.justified_of_mem_actions hitems hcell
  obtain rfl := Automaton.column_inj (hg.terminal_of_mem_follow hs).1 hge hcolumn
  -- a cell that does not accept is one that the condition speaks of
  have hne' : g.actions state name ≠ [.accept] := fun he => haccept (he ▸ List.mem_cons_self)
  rw [hslr state items hitems name hname hne' x hx y hy hready ⟨hne, ho, hs⟩]

/-- Where a reduction is ready and the cell does not accept, it is carried out. -/
theorem Faces.next_of_reduce (hplain : ∀ r ∈ first :: rest, r.condition = none ∧ r.action = none)
    (hslr : g.IsSlr) (h : g.Faces (w ++ [e]) c (t :: ts)) {items : ItemSet}
    (hitems : g.states[c.session.state]? = some items) {x : Item} (hx : x ∈ items)
    (hready : g.ReduceReady t.name x)
    (haccept : .accept ∉ g.actions c.session.state t.name) :
    g.Faces (w ++ [e]) (c.next g source) (t :: ts) ∧ ∃ j attributes,
      (c.next g source).session.stack = ⟨j, (g.rule x.production).lhs.name, attributes⟩ ::
        c.session.stack.drop (g.rule x.production).rhs.length := by
  obtain ⟨hpath, ⟨_, ht, hstatus⟩, hahead, hasked⟩ := h
  obtain rfl := Option.some.inj ht
  have hterminal := hg.terminal_of_mem_follow hready.follow
  have hname := (SymbolTable.idOf_lt_size_iff _ _).1 hterminal.2
  -- whatever reduction the cell holds in its place, it is this one
  have honly {q : Nat} (hq : .reduce q ∈ g.actions c.session.state t.name) : q = x.production :=
    hg.eq_of_reduce_mem_actions hslr hitems haccept hx hready hq
  have hcell : .reduce x.production ∈ g.actions c.session.state t.name := by
    rcases hg.covers_actions hitems hx hready.complete hready.ne_start hname hterminal.1
      hready.follow with ha | hp | ⟨-, q, hq, -⟩
    · exact absurd ha haccept
    · exact hp
    · exact honly hq ▸ hq
  obtain ⟨q, hq⟩ := (hpath.reducible_of_mem_actions hg hcell).production
  obtain ⟨rules, result, heffect, hnext, -⟩ := Configuration.next_spec source hg hpath hstatus
  have hpath' := heffect.isPath hpath
  obtain ⟨rfl, s₁, scope, j, attributes, htested, hs⟩ := heffect.of_reduce hg hcell haccept
    (fun q => honly) (hplain _ (hg.rule_mem_given hq hready.ne_start))
  have hstats := htested.stats
  refine ⟨⟨hpath', ⟨t, rfl, hnext⟩, ?_, ?_⟩, j, attributes, ?_⟩
  · rw [hs]
    show (w ++ [e]).drop s₁.stats.shifts = _
    rw [hstats]
    exact hahead
  · rw [hs]
    show s₁.stats.terminals = s₁.stats.shifts + 1
    rw [hstats]
    exact hasked
  · rw [hs]
    show _ :: s₁.stack.drop _ = _
    rw [htested.stack]

end

/-! ## Following a tree -/

/-- What is shown of a tree: where a state waits for its symbol and its leaves come, followed by a
terminal that can come after the symbol, the parse succeeds if it does so with the symbol on the
stack. -/
def RunsTree (g : Grammar) (source : Source) (w : List Terminal) (e : Terminal)
    (tree : ParseTree) : Prop :=
  ∀ c t ts items x, g.Faces (w ++ [e]) c (tree.leaves ++ t :: ts) →
    g.states[c.session.state]? = some items → x ∈ items →
    x.observed? g.automaton.productions = some (g.names.idOf tree.symbol) →
    (g.names.idOf tree.symbol < g.automaton.nonterminals →
      g.names.idOf t.name ∈ g.followOf (g.names.idOf tree.symbol)) →
    (∀ c' entry, g.Faces (w ++ [e]) c' (t :: ts) → c'.session.stack = entry :: c.session.stack →
      entry.symbol = tree.symbol → g.Succeeds source w.length c') →
    g.Succeeds source w.length c

/-- What is shown of a row of trees: where an item waits for their symbols and their leaves come, the
parse succeeds if it does so once the item has read them all. -/
def RunsForest (g : Grammar) (source : Source) (w : List Terminal) (e : Terminal)
    (trees : List ParseTree) : Prop :=
  ∀ c t ts items x q, g.Faces (w ++ [e]) c (ParseTree.leavesAll trees ++ t :: ts) →
    g.states[c.session.state]? = some items → x ∈ items →
    g.automaton.productions[x.production]? = some q →
    q.rhs.drop x.dot = g.idsOf (trees.map ParseTree.symbol) →
    g.names.idOf t.name ∈ g.followOf q.lhs →
    (∀ c' upper items', g.Faces (w ++ [e]) c' (t :: ts) →
      c'.session.stack = upper ++ c.session.stack → upper.length = trees.length →
      g.states[c'.session.state]? = some items' →
      ⟨x.production, x.dot + trees.length⟩ ∈ items' → g.Succeeds source w.length c') →
    g.Succeeds source w.length c

section

variable (hg : g.IsBuiltFrom first rest) {w : List Terminal} {e : Terminal}
include hg

/-- A leaf is shifted: the state waits for its name, so the cell holds a shift. -/
theorem runsTree_leaf (hgives : source.Gives (w ++ [e])) {t₀ : Terminal}
    (hvalid : (ParseTree.leaf t₀).Valid (first :: rest)) (hoccurs : g.Occurs t₀.name) :
    g.RunsTree source w e (.leaf t₀) := by
  intro c t ts items x hfaces hitems hx ho _ hthen
  cases hvalid with
  | leaf hterminal =>
    obtain ⟨j, hcell⟩ := hg.exists_shift_mem_actions hitems hx ho
      (hg.mem_names_of_occurs hoccurs) (hg.terminal_of_occurs hoccurs hterminal).1
    obtain ⟨hnext, hstack⟩ := hfaces.next_of_shift hg hgives hcell
    exact .of_next (hthen _ _ hnext hstack rfl)

/-- If the children of a node can be followed, so can the node: its rule is reduced behind them. -/
theorem runsTree_node (hplain : ∀ r ∈ first :: rest, r.condition = none ∧ r.action = none)
    (hslr : g.IsSlr) (hw : ∀ t ∈ w, t.name ≠ endName) {rule : Rule} {children : List ParseTree}
    (hrule : rule ∈ first :: rest) (hsymbols : children.map ParseTree.symbol = rule.rhsNames)
    (hforest : g.RunsForest source w e children) : g.RunsTree source w e (.node rule children) := by
  intro c t ts items x hfaces hitems hx ho hfollow hthen
  -- the state holds the rule from its beginning
  obtain ⟨p, hne, hq, hp⟩ := hg.exists_production hrule
  have hlt := hg.lhs_lt hq
  have hopen : ⟨p, 0⟩ ∈ items := hfaces.path.mem_of_opens hg hitems ⟨rfl, _, hq, hlt, x, hx, ho⟩
  have hrhs : (rule.encode g.names).rhs.drop 0 = g.idsOf (children.map ParseTree.symbol) := by
    rw [List.drop_zero, rhs_encode, hsymbols]
  refine hforest c t ts items ⟨p, 0⟩ _ hfaces hitems hopen hq hrhs (hfollow hlt) ?_
  intro c' upper items' hfaces' hstack hlength hitems' hread
  -- all of the right-hand side has been read, so the rule is reduced or the cell accepts
  have hrhslength : children.length = rule.rhs.length := by
    have := congrArg List.length hsymbols
    rwa [List.length_map, Rule.rhsNames, List.length_map] at this
  have hready : g.ReduceReady t.name ⟨p, 0 + children.length⟩ := by
    refine ⟨hne, hg.observed?_eq_none ?_, ?_⟩
    · show (g.rule p).rhs.length ≤ 0 + children.length
      rw [hp, hrhslength, Nat.zero_add]
    · rw [hg.lhsOf_eq hq, hp]
      exact hfollow hlt
  by_cases haccept : .accept ∈ g.actions c'.session.state t.name
  · exact hfaces'.succeeds_of_accept hg hw haccept
  · obtain ⟨hnext, j, attributes, hstack'⟩ :=
      hfaces'.next_of_reduce hg hplain hslr hitems' hread hready haccept
    rw [hp, hstack, List.drop_left' (hlength.trans hrhslength)] at hstack'
    exact .of_next (hthen _ _ hnext hstack' rfl)

/-- The first tree is put together, the item moves on over its symbol, and the others follow. -/
theorem runsForest_cons {tree : ParseTree} {trees : List ParseTree}
    (htrees : ∀ tree ∈ trees, tree.Valid (first :: rest) ∧ g.Occurs tree.symbol)
    (hfirst : g.RunsTree source w e tree) (hrest : g.RunsForest source w e trees) :
    g.RunsForest source w e (tree :: trees) := by
  intro c t ts items x q hfaces hitems hx hq hrhs hfollow hthen
  have hsplit : q.rhs = q.rhs.take x.dot ++
      g.names.idOf tree.symbol :: g.idsOf (trees.map ParseTree.symbol) :=
    (List.take_append_drop x.dot q.rhs).symm.trans (congrArg _ hrhs)
  have ho : x.observed? g.automaton.productions = some (g.names.idOf tree.symbol) := by
    refine (Item.observed?_eq_some_iff _ _).2 ⟨q, hq, ?_⟩
    rw [← List.head?_drop, hrhs]
    rfl
  -- what comes after the first tree is the first leaf of the others, or what comes after them all
  obtain ⟨t', ts', hafter⟩ :=
    List.exists_cons_of_ne_nil (List.append_ne_nil_of_right_ne_nil
      (ParseTree.leavesAll trees) (List.cons_ne_nil t ts))
  rw [ParseTree.leavesAll_cons, List.append_assoc, hafter] at hfaces
  refine hfirst c t' ts' items x hfaces hitems hx ho
    (fun hlt => hg.follow_of_forest hq hsplit hlt htrees hfollow hafter) ?_
  intro c' entry hfaces' hstack hsymbol
  -- the item has read the symbol of the first tree, and waits for the others
  obtain ⟨above, hitems', hadvance⟩ := hfaces'.advance_mem hg hfaces hstack hitems hx
    (hsymbol.symm ▸ ho)
  rw [← hafter] at hfaces'
  refine hrest c' t ts above x.advance q hfaces' hitems' hadvance hq ?_ hfollow ?_
  · show q.rhs.drop (x.dot + 1) = _
    rw [← List.drop_drop, hrhs]
    rfl
  · intro c'' upper items'' hfaces'' hstack'' hlength hitems'' hread
    -- all that has been pushed: the first tree, and the others on top of it
    refine hthen c'' (upper ++ [entry]) items'' hfaces'' ?_ ?_ hitems'' ?_
    · rw [hstack'', hstack, List.append_assoc]
      rfl
    · rw [List.length_append, hlength]
      rfl
    · have hdot : x.dot + (tree :: trees).length = x.advance.dot + trees.length := by
        show x.dot + (trees.length + 1) = x.dot + 1 + trees.length
        omega
      rw [hdot]
      exact hread

/-- A parse follows a tree, and a row of trees. -/
theorem runs_tree (hplain : ∀ r ∈ first :: rest, r.condition = none ∧ r.action = none)
    (hslr : g.IsSlr) (hgives : source.Gives (w ++ [e])) (hw : ∀ t ∈ w, t.name ≠ endName) :
    (∀ tree : ParseTree, tree.Valid (first :: rest) → g.Occurs tree.symbol →
      g.RunsTree source w e tree) ∧
    ∀ trees : List ParseTree, (∀ tree ∈ trees, tree.Valid (first :: rest) ∧ g.Occurs tree.symbol) →
      g.RunsForest source w e trees := by
  refine ParseTree.induction ?leaf ?node ?nil ?cons
  case leaf =>
    intro t₀ hvalid hoccurs
    exact runsTree_leaf hg hgives hvalid hoccurs
  case node =>
    intro rule children ih hvalid _
    cases hvalid with
    | node hrule hsymbols hchildren =>
      refine runsTree_node hg hplain hslr hw hrule hsymbols (ih fun tree htree => ?_)
      exact ⟨hchildren tree htree, rule, hg.mem_rules hrule,
        hsymbols ▸ List.mem_map_of_mem htree⟩
  case nil =>
    intro _ c t ts items x q hfaces hitems hx _ _ _ hthen
    exact hthen c [] items hfaces rfl rfl hitems hx
  case cons =>
    intro tree trees hfirst hrest hall
    obtain ⟨⟨hvalid, hoccurs⟩, htrees⟩ := List.forall_mem_cons.1 hall
    exact runsForest_cons hg htrees (hfirst hvalid hoccurs) (hrest htrees)

end

/-! ## Sentences -/

/-- The end marker is no part of a sentence. -/
theorem IsBuiltFrom.ne_endName_of_derives (hg : g.IsBuiltFrom first rest) {form : List String}
    (h : Derives (first :: rest) [first.lhs.name] form) : ∀ name ∈ form, name ≠ endName := by
  induction h with
  | refl =>
    intro name hname
    obtain rfl := List.mem_singleton.1 hname
    exact hg.name_ne_endName (hg.mem_rules List.mem_cons_self) List.mem_cons_self
  | tail _ hstep ih =>
    cases hstep with
    -- what is put in the place of a left-hand side is from a rule, and no rule mentions the end
    -- marker
    | @apply r hr before after =>
      intro name hname
      rcases List.mem_append.1 hname with hname | hname
      · rcases List.mem_append.1 hname with hname | hname
        · exact ih name (List.mem_append_left _ hname)
        · obtain ⟨s, hs, rfl⟩ := List.mem_map.1 hname
          exact hg.name_ne_endName (hg.mem_rules hr) (List.mem_cons_of_mem _ hs)
      · exact ih name (List.mem_append_right _ (List.mem_cons_of_mem _ hname))

/-- At the beginning, all of the input is ahead. -/
theorem faces_initial (output : Sink) {t : Terminal} (hgives : source.Gives (t :: ts)) :
    g.Faces (t :: ts) (.initial source output) (t :: ts) ∧
      (Configuration.initial source output).session.stack = [Session.bottom] := by
  have hfirst : (source 0).item = some (.ok t) := hgives 0 t rfl
  obtain ⟨-, ⟨hitem, -⟩ | ⟨item, hitem, hsession, hstatus⟩⟩ :=
    Configuration.initial_cases source output
  · exact nomatch hfirst.symm.trans hitem
  · obtain rfl := Option.some.inj (hfirst.symm.trans hitem)
    refine ⟨⟨?_, ⟨t, rfl, hstatus⟩, ?_, ?_⟩, ?_⟩
    · rw [hsession]
      exact .bottom
    · rw [hsession]
      rfl
    · rw [hsession]
      rfl
    · rw [hsession]
      rfl

/-- A parse of a sentence and the end marker succeeds, whatever comes behind them, if the grammar has
neither guards nor actions and in no state a terminal that is not accepted calls for two
reductions. -/
theorem parse_complete (h : (build (first :: rest)).result = .ok g)
    (hplain : ∀ r ∈ first :: rest, r.condition = none ∧ r.action = none) (hslr : g.IsSlr)
    {w : List Terminal} {e : Terminal}
    (hsentence : IsSentence (first :: rest) first.lhs.name (w.map (·.name)))
    (he : e.name = endName) (hgives : source.Gives (w ++ [e])) (output : Sink) :
    ∃ n stats, (g.parse source output n).result? = some (.ok stats) ∧
      stats.shifts = w.length := by
  obtain ⟨first, rest, hrules, hg⟩ := isBuiltFrom_of_build h
  obtain ⟨rfl, rfl⟩ := List.cons.inj hrules
  obtain ⟨tree, hsymbol, rfl, hvalid⟩ := hsentence.exists_tree
  have hw : ∀ t ∈ tree.leaves, t.name ≠ endName := fun t ht =>
    hg.ne_endName_of_derives hsentence.derives _ (List.mem_map_of_mem ht)
  have hoccurs : g.Occurs tree.symbol := by
    refine ⟨Rule.start first.lhs.name, ?_, hsymbol ▸ List.mem_singleton_self _⟩
    rw [hg.rules_eq]
    exact List.mem_cons_self
  -- the first state waits for the symbol of the tree, and the end marker can come after it
  have hitem := hg.observed?_start
  have hfollow := hg.endMarker_mem_follow_root
  rw [← hsymbol] at hitem hfollow
  rw [← he] at hfollow
  obtain ⟨t, ts, hinput⟩ : ∃ t ts, tree.leaves ++ [e] = t :: ts :=
    List.exists_cons_of_ne_nil (List.append_ne_nil_of_right_ne_nil _ (List.cons_ne_nil e []))
  obtain ⟨hfaces, hbottom⟩ := faces_initial (g := g) output (hinput ▸ hgives)
  rw [← hinput] at hfaces
  have hitems : g.states[(Configuration.initial source output).session.state]? =
      some (startState g.automaton.productions g.automaton.nonterminals) := by
    show g.states[StackEntry.topState (Configuration.initial source output).session.stack]? = _
    rw [hbottom]
    exact hg.states_zero
  refine (runs_tree hg hplain hslr hgives hw).1 tree hvalid hoccurs _ e [] _ _ hfaces hitems
    start_mem_startState hitem hfollow fun c' entry hfaces' hstack hentry => ?_
  -- with the tree on the stack, the start production has been read
  obtain ⟨above, habove, hread⟩ := hfaces'.advance_mem hg hfaces hstack hitems
    start_mem_startState (hentry.symm ▸ hitem)
  refine hfaces'.succeeds_of_accept hg hw ?_
  rw [he]
  refine hg.accept_mem_actions habove hread (hg.observed?_eq_none ?_) rfl
  show (g.rule startProduction).rhs.length ≤ 1
  rw [hg.rule_start]
  exact Nat.le_refl 1

/-- Brackets that enclose brackets or nothing. -/
def balanced : List Rule :=
  [ { lhs := ⟨"S", none⟩, rhs := [⟨"(", none⟩, ⟨"S", none⟩, ⟨")", none⟩] },
    { lhs := ⟨"S", none⟩, rhs := [] } ]

/-- One pair of brackets, in which there is nothing. -/
def onePair : List Terminal := [{ name := "(" }, { name := ")" }]

/-- The end marker as it ends an input. -/
def inputEnd : Terminal := { name := endName }

/-- One pair of brackets is parsed. -/
theorem parse_balanced_complete : ∃ g n stats, (build balanced).result = .ok g ∧
    (g.parse (.ofList ((onePair ++ [inputEnd]).map .ok)) {} n).result? =
      some (.ok stats) ∧ stats.shifts = 2 := by
  have hbuild : (build balanced).result.map (fun g => decide g.IsSlr) = .ok true := by
    decide +kernel
  obtain ⟨g, hg, hslr⟩ := exists_of_map_eq_ok hbuild
  have hsentence : IsSentence balanced "S" (onePair.map (·.name)) := by
    have hpair : Produces balanced ([] ++ "S" :: []) ([] ++ ["(", "S", ")"] ++ []) :=
      .apply (r := balanced[0]) (by decide) [] []
    have hempty : Produces balanced (["("] ++ "S" :: [")"]) (["("] ++ [] ++ [")"]) :=
      .apply (r := balanced[1]) (by decide) ["("] [")"]
    refine ⟨.head hpair (.single hempty), ?_⟩
    unfold IsTerminal
    decide
  obtain ⟨n, stats, hok, hshifts⟩ := parse_complete hg (by decide) (of_decide_eq_true hslr)
    hsentence rfl (Source.gives_ofList (onePair ++ [inputEnd])) {}
  exact ⟨g, n, stats, hg, hok, hshifts⟩

end Grammar

end GuardedGrammar
