/-
  What a parse writes is the translation of a parse tree.

  A tree is translated from the leaves up: the attributes of a leaf are those of its terminal, and those
  of a node are what the action of its rule leaves for the left-hand side, in a scope that is bound to
  what its children have come to, from left to right.  Registers are counted through the whole tree.

  The entries on the stack of a parse are the translations of a row of trees, made on the same sink with
  the same registers (`Trace.translated`).  A shift adds a leaf to the row, and a reduction puts the last
  trees together: the translation of a row can be cut where they begin (`Translates.cut`), the
  scope of the new node is that of the reduction, apart from the states of the entries, and a guard that
  takes no register leaves no trace.  When the parse succeeds, one tree is left (`parse_translates`).
-/
import GuardedGrammar.Proofs.ParseTree
import GuardedGrammar.Proofs.Soundness

namespace GuardedGrammar

/-- What the translation of a tree works on: the number of the next register, the output, and the
scopes of the nodes that have been dealt with, the latest first. -/
structure Workspace where
  registers : Nat := 0
  output : Sink
  visited : List Scope := []

namespace Workspace

/-- Does something in the scope of a rule that is bound to entries. -/
def inScope {α : Type} (rule : Rule) (entries : List StackEntry) (task : Task Scope ParseError α) :
    Task Workspace ParseError α := fun ws =>
  match Scope.bind rule entries ws.registers ws.output with
  | .error what => ⟨[], ws, .error (.inconsistent what)⟩
  | .ok scope =>
    let done := task.run scope
    ⟨done.events, ⟨done.state.registers, done.state.output, scope :: ws.visited⟩, done.result⟩

/-- What is done in a scope is done in the workspace, and the scope is remembered. -/
theorem run_inScope {α : Type} {rule : Rule} {entries : List StackEntry} {ws : Workspace}
    {scope : Scope} (hbind : Scope.bind rule entries ws.registers ws.output = .ok scope)
    {task : Task Scope ParseError α} {events : List Event} {after : Scope}
    {result : Except ParseError α} (htask : task.run scope = ⟨events, after, result⟩) :
    (inScope rule entries task).run ws =
      ⟨events, ⟨after.registers, after.output, scope :: ws.visited⟩, result⟩ := by
  unfold inScope
  unfold Task.run at htask ⊢
  dsimp only
  rw [hbind]
  dsimp only
  rw [htask]

/-- The guard of every node that has been dealt with holds in its scope. -/
def GuardsHold (ws : Workspace) : Prop :=
  ∀ scope ∈ ws.visited, ∀ c, scope.rule.condition = some c →
    ((Scope.test c).run scope).result = .ok true

end Workspace

namespace ParseTree

mutual

/-- Translates a tree; the result is the attributes of its symbol. -/
def translate : ParseTree → Task Workspace ParseError Attributes
  | leaf t => pure t.attributes
  | node rule children => do
    let entries ← translateAll children
    Workspace.inScope rule entries (Grammar.act rule)

/-- Translates trees one after the other; the result is their symbols with their attributes. -/
def translateAll : List ParseTree → Task Workspace ParseError (List StackEntry)
  | [] => pure []
  | tree :: trees => do
    let attributes ← tree.translate
    let entries ← translateAll trees
    pure (⟨0, tree.symbol, attributes⟩ :: entries)

end

/-- Trees can be translated, to entries, and what that leaves. -/
def Translates (trees : List ParseTree) (ws ws' : Workspace) (entries : List StackEntry) : Prop :=
  ∃ events, (translateAll trees).run ws = ⟨events, ws', .ok entries⟩

theorem translates_nil (ws : Workspace) : Translates [] ws ws [] := ⟨[], rfl⟩

/-- A row is translated by translating its first tree and then the others. -/
theorem translates_cons {tree : ParseTree} {trees : List ParseTree} {ws ws' : Workspace}
    {entries : List StackEntry} :
    Translates (tree :: trees) ws ws' entries ↔
      ∃ events middle attributes rest, tree.translate.run ws = ⟨events, middle, .ok attributes⟩ ∧
        Translates trees middle ws' rest ∧ entries = ⟨0, tree.symbol, attributes⟩ :: rest := by
  have hrun : (translateAll (tree :: trees)).run ws =
      (tree.translate >>= fun attributes => translateAll trees >>= fun entries =>
        pure (⟨0, tree.symbol, attributes⟩ :: entries)).run ws := rfl
  constructor
  · rintro ⟨events, h⟩
    rw [hrun] at h
    obtain ⟨first, middle, attributes, _, htree, h, -⟩ := Task.exists_of_run_bind_eq_ok h
    obtain ⟨second, after, rest, _, hrest, h, -⟩ := Task.exists_of_run_bind_eq_ok h
    obtain ⟨-, rfl, hentries⟩ := Completed.mk.inj h
    exact ⟨first, middle, attributes, rest, htree, ⟨second, hrest⟩, (Except.ok.inj hentries).symm⟩
  · rintro ⟨events, middle, attributes, rest, htree, ⟨restEvents, hrest⟩, rfl⟩
    refine ⟨events ++ (restEvents ++ []), ?_⟩
    rw [hrun, Task.run_bind_of_ok htree, Task.run_bind_of_ok hrest]
    rfl

/-- Where its entries are cut, a translation can be cut. -/
theorem Translates.cut {trees : List ParseTree} {ws ws' : Workspace}
    {lower upper : List StackEntry} (h : Translates trees ws ws' (lower ++ upper)) :
    ∃ left right middle, trees = left ++ right ∧ Translates left ws middle lower ∧
      Translates right middle ws' upper := by
  induction lower generalizing trees ws with
  | nil => exact ⟨[], trees, ws, rfl, translates_nil ws, h⟩
  | cons entry lower ih =>
    cases trees with
    | nil =>
      obtain ⟨events, h⟩ := h
      exact nomatch congrArg Completed.result h
    | cons tree trees =>
      obtain ⟨events, after, attributes, rest, htree, hrest, heq⟩ := translates_cons.1 h
      obtain ⟨rfl, rfl⟩ := List.cons.inj heq
      obtain ⟨left, right, middle, rfl, hleft, hright⟩ := ih hrest
      refine ⟨tree :: left, right, middle, rfl, ?_, hright⟩
      exact translates_cons.2 ⟨events, after, attributes, lower, htree, hleft, rfl⟩

/-- Rows are translated one after the other. -/
theorem Translates.append {left right : List ParseTree} {ws middle ws' : Workspace}
    {first rest : List StackEntry} (hleft : Translates left ws middle first)
    (hright : Translates right middle ws' rest) :
    Translates (left ++ right) ws ws' (first ++ rest) := by
  induction left generalizing ws first with
  | nil =>
    obtain ⟨events, h⟩ := hleft
    obtain ⟨-, rfl, hentries⟩ := Completed.mk.inj h
    obtain rfl := Except.ok.inj hentries
    exact hright
  | cons tree left ih =>
    obtain ⟨events, after, attributes, others, htree, hothers, rfl⟩ := translates_cons.1 hleft
    exact translates_cons.2 ⟨events, after, attributes, _, htree, ih hothers, rfl⟩

/-- The entries that trees are translated to have their symbols. -/
theorem Translates.symbols {trees : List ParseTree} {ws ws' : Workspace}
    {entries : List StackEntry} (h : Translates trees ws ws' entries) :
    entries.map (·.symbol) = trees.map symbol := by
  induction trees generalizing ws entries with
  | nil =>
    obtain ⟨events, h⟩ := h
    obtain ⟨-, -, hentries⟩ := Completed.mk.inj h
    obtain rfl := Except.ok.inj hentries
    rfl
  | cons tree trees ih =>
    obtain ⟨_, _, _, rest, -, hrest, rfl⟩ := translates_cons.1 h
    exact congrArg (tree.symbol :: ·) (ih hrest)

/-- One tree is a row. -/
theorem translates_singleton {tree : ParseTree} {ws ws' : Workspace} {events : List Event}
    {attributes : Attributes} (h : tree.translate.run ws = ⟨events, ws', .ok attributes⟩) :
    Translates [tree] ws ws' [⟨0, tree.symbol, attributes⟩] :=
  translates_cons.2 ⟨events, ws', attributes, [], h, translates_nil ws', rfl⟩

/-- A node is translated by translating its children and carrying its action out in their scope. -/
theorem run_translate_node {rule : Rule} {children : List ParseTree} {ws middle : Workspace}
    {entries : List StackEntry} {scope : Scope} (hchildren : Translates children ws middle entries)
    (hbind : Scope.bind rule entries middle.registers middle.output = .ok scope)
    {events : List Event} {after : Scope} {attributes : Attributes}
    (hact : (Grammar.act rule).run scope = ⟨events, after, .ok attributes⟩) :
    ∃ events', (node rule children).translate.run ws =
      ⟨events', ⟨after.registers, after.output, scope :: middle.visited⟩, .ok attributes⟩ := by
  obtain ⟨childEvents, hrun⟩ := hchildren
  refine ⟨childEvents ++ events, ?_⟩
  show (translateAll children >>= fun entries =>
    Workspace.inScope rule entries (Grammar.act rule)).run ws = _
  rw [Task.run_bind_of_ok hrun, Workspace.run_inScope hbind hact]

end ParseTree

open ParseTree

namespace Grammar

/-- Trees whose translation, from the beginning, is what is on the stack. -/
structure IsTranslation (rules : List Rule) (output : Sink) (ts : List Terminal) (s : Session)
    (trees : List ParseTree) (ws : Workspace) : Prop where
  valid : ∀ tree ∈ trees, tree.Valid rules
  leaves : leavesAll trees = ts
  translates :
    Translates trees { output } ws ((aboveBottom s.stack).map StackEntry.unplaced)
  registers : ws.registers = s.registers
  output : ws.output = s.output
  guards : ws.GuardsHold

variable {g : Grammar} {first : Rule} {rest : List Rule} {source : Source} {output : Sink}
  {ts : List Terminal} {rules : List Rule} {s s' : Session} {t : Terminal}
  {trees : List ParseTree} {ws : Workspace}

/-- A shift adds a leaf. -/
theorem IsTranslation.shift (h : IsTranslation rules output ts s trees ws) (hstack : s.stack ≠ [])
    (ht : IsTerminal rules t.name) (j : Nat) :
    IsTranslation rules output (ts ++ [t]) (s.shifted j t).answered (trees ++ [.leaf t]) ws where
  valid tree htree := by
    rcases List.mem_append.1 htree with htree | htree
    · exact h.valid tree htree
    · obtain rfl := List.mem_singleton.1 htree
      exact .leaf ht
  leaves := by
    rw [leavesAll_append, h.leaves]
    rfl
  translates := by
    -- the new leaf comes last, and its attributes are those of the terminal
    show Translates _ _ _ ((aboveBottom (_ :: s.stack)).map StackEntry.unplaced)
    rw [aboveBottom_cons _ hstack, List.map_append]
    exact h.translates.append (translates_singleton rfl)
  registers := h.registers
  output := h.output
  guards := h.guards

/-- Tests of guards that take no register change nothing that a rule sees. -/
theorem Tested.topScope_eq (hguards : g.GuardsTakeNoRegister) (h : g.Tested s s') (rule : Rule) :
    s'.topScope rule = s.topScope rule := by
  unfold Session.topScope
  rw [h.stack, h.registers hguards, h.output]

/-- The entries on top of the stack can be bound to the rule in whatever state they are. -/
theorem Reducible.bind_unplaced {p : Nat} (h : g.Reducible s.stack p) :
    Scope.bind (g.rule p) ((s.stack.take (g.rule p).rhs.length).reverse.map StackEntry.unplaced)
      s.registers s.output = .ok (s.topScope (g.rule p)).unplaced := by
  have hsymbols : ((s.stack.take (g.rule p).rhs.length).reverse.map StackEntry.unplaced).map
      (·.symbol) = (g.rule p).rhs.map Symbol.name := by
    rw [← h.symbols, List.map_map]
    rfl
  exact Scope.bind_eq_ok_iff.2 ⟨hsymbols, rfl⟩

/-- A reduction puts the last trees together to a node. -/
theorem IsTranslation.reduce (hg : g.IsBuiltFrom first rest) (hguards : g.GuardsTakeNoRegister)
    {r : Rule} (h : IsTranslation (first :: rest) output ts s trees ws)
    (heffect : g.Effect source s t [r] s' (.ok (.reading t))) :
    ∃ trees' ws', IsTranslation (first :: rest) output ts s' trees' ws' := by
  cases heffect with
  | @reduces p j s₀ s₁ scope attributes events _ hrule hbefore hguard hafter hact =>
    obtain ⟨q, hq⟩ := hrule.production
    have htested := hbefore.trans hafter
    -- the trees of the right-hand side are the last ones
    have htranslates := h.translates
    rw [aboveBottom_drop hrule.length_lt, List.map_append] at htranslates
    obtain ⟨left, children, middle, rfl, hleft, hchildren⟩ := htranslates.cut
    have hsymbols : children.map symbol = (g.rule p).rhsNames := by
      rw [← hchildren.symbols, List.map_map]
      exact hrule.symbols
    -- the action does in the scope of the node what it does on the stack
    have hbind := hrule.bind_unplaced
    rw [← h.registers, ← h.output] at hbind
    rw [htested.topScope_eq hguards] at hact
    have hunplaced := (Scope.confined_act (g.rule p)).unplaced (s.topScope (g.rule p))
    rw [hact] at hunplaced
    obtain ⟨nodeEvents, hnode⟩ := run_translate_node hchildren hbind hunplaced
    refine ⟨left ++ [.node (g.rule p) children],
      ⟨scope.registers, scope.output, (s.topScope (g.rule p)).unplaced :: ws.visited⟩,
      fun tree htree => ?_, ?_, ?_, rfl, rfl, ?_⟩
    · rcases List.mem_append.1 htree with htree | htree
      · exact h.valid tree (List.mem_append_left _ htree)
      · obtain rfl := List.mem_singleton.1 htree
        exact .node (hg.rule_mem_given hq hrule.ne_start) hsymbols fun child hchild =>
          h.valid child (List.mem_append_right _ hchild)
    · rw [← h.leaves, leavesAll_append, leavesAll_append, leavesAll_cons, leaves_node]
      exact congrArg _ (List.append_nil _)
    · show Translates _ _ _ ((aboveBottom (_ :: s₁.stack.drop _)).map StackEntry.unplaced)
      rw [htested.stack, aboveBottom_cons _ hrule.drop_ne_nil, List.map_append]
      exact hleft.append (translates_singleton hnode)
    · intro visited hvisited c hc
      rcases List.mem_cons.1 hvisited with rfl | hvisited
      · rw [(Scope.confined_test c).unplaced, ← hbefore.topScope_eq hguards]
        exact hguard c hc
      · exact h.guards visited hvisited c hc

/-- What is on the stack is the translation of trees. -/
theorem Trace.translated (hg : g.IsBuiltFrom first rest) (hguards : g.GuardsTakeNoRegister)
    (h : g.Trace source output ts rules s t) :
    ∃ trees ws, IsTranslation (first :: rest) output ts s trees ws := by
  induction h with
  | start =>
    refine ⟨[], { output }, fun _ h => absurd h List.not_mem_nil, rfl, translates_nil _, rfl, rfl,
      fun _ h => absurd h List.not_mem_nil⟩
  | @shift ts rules s t t' j before hcell _ ih =>
    obtain ⟨trees, ws, h⟩ := ih
    exact ⟨_, ws, h.shift before.isPath.ne_nil (isTerminal_of_mem_actions hg hcell) j⟩
  | reduce _ heffect ih =>
    obtain ⟨trees, ws, h⟩ := ih
    exact h.reduce hg hguards heffect

/-- What a parse that succeeds has written is the translation of a parse tree of what it has shifted,
made on the same sink with registers counted from zero; and the guard of every node of the tree holds
in its scope.  Guards must not take registers. -/
theorem parse_translates (h : (build (first :: rest)).result = .ok g)
    (hguards : ∀ r ∈ first :: rest, ∀ c, r.condition = some c → ¬Scope.TakesRegister c)
    {n : Nat} {stats : Stats} (hok : (g.parse source output n).result? = some (.ok stats)) :
    ∃ (tree : ParseTree) (e : Terminal), tree.Valid (first :: rest) ∧
      tree.symbol = first.lhs.name ∧ source.Gives (tree.leaves ++ [e]) ∧ e.name = endName ∧
      tree.leaves.length = stats.shifts ∧
      ∃ events ws attributes, tree.translate.run { output } = ⟨events, ws, .ok attributes⟩ ∧
        ws.output = (g.parse source output n).session.output ∧
        ws.registers = (g.parse source output n).session.registers ∧ ws.GuardsHold := by
  obtain ⟨first, rest, hrules, hg⟩ := isBuiltFrom_of_build h
  obtain ⟨rfl, rfl⟩ := List.cons.inj hrules
  have hguards' : g.GuardsTakeNoRegister := fun r hr c hc => by
    rw [hg.rules_eq] at hr
    rcases List.mem_cons.1 hr with rfl | hr
    · exact nomatch hc
    · exact hguards r hr c hc
  obtain ⟨w, e, rfl, htrace, hcell⟩ := exists_trace_of_ok hg hok
  obtain ⟨hname, entry, hstack, hsymbol⟩ := htrace.isPath.of_accept_mem_actions hg hcell
  obtain ⟨trees, ws, htranslation⟩ := htrace.translated hg hguards'
  -- one symbol is on the stack, so there is one tree
  have htranslates := htranslation.translates
  rw [hstack] at htranslates
  have hsymbols := htranslates.symbols
  obtain ⟨tree, rest', rfl, hroot, hrest⟩ := List.map_eq_cons_iff.1 hsymbols.symm
  obtain rfl := List.map_eq_nil_iff.1 hrest
  obtain ⟨events, ws', attributes, _, hrun, ⟨_, hnil⟩, -⟩ := translates_cons.1 htranslates
  obtain ⟨-, rfl, -⟩ := Completed.mk.inj hnil
  have hleaves : tree.leaves = w := by
    rw [← htranslation.leaves]
    exact (List.append_nil _).symm
  refine ⟨tree, e, htranslation.valid tree List.mem_cons_self, hroot.trans hsymbol, ?_, hname, ?_,
    events, ws', attributes, hrun, htranslation.output, htranslation.registers,
    htranslation.guards⟩
  · rw [hleaves]
    exact htrace.gives
  · rw [hleaves]
    exact htrace.stats.1.symm

/-- The translation of two pairs of brackets writes a line for the inner pair and one for the outer. -/
theorem parse_nested_translates : ∃ tree : ParseTree, tree.Valid nested ∧ tree.leaves.length = 4 ∧
    (tree.translate.run { output := {} }).state.output.written =
      Sink.lineBytes "inner" ++ Sink.lineBytes "outer" := by
  have hrun : (build nested).result.map (fun g =>
      ((g.parse (.ofList (twoPairs.map .ok)) {} 8).result?,
        (g.parse (.ofList (twoPairs.map .ok)) {} 8).session.output.written)) =
      .ok (some (.ok { terminals := 5, shifts := 4, reductions := 3, guards := 2 }),
        Sink.lineBytes "inner" ++ Sink.lineBytes "outer") := by
    decide +kernel
  obtain ⟨g, hg, hparse⟩ := exists_of_map_eq_ok hrun
  obtain ⟨hok, hwritten⟩ := Prod.mk.inj hparse
  -- no guard of the rules asks for a register
  have hguards : ∀ r ∈ nested, ∀ c, r.condition = some c → ¬Scope.TakesRegister c := by
    unfold Scope.TakesRegister
    decide
  obtain ⟨tree, e, hvalid, -, -, -, hlength, events, ws, attributes, htranslate, houtput, -⟩ :=
    parse_translates hg hguards hok
  refine ⟨tree, hvalid, hlength, ?_⟩
  rw [htranslate, ← hwritten, ← houtput]

end Grammar

end GuardedGrammar
