/-
  What a step of a parse does.

  As long as the stack is a path through the automaton, a step does one of a few things, listed by
  `Effect`: it shifts, accepts, or reduces a rule of the cell, whose guard held in a session that
  differs from the present one by tests of guards only, or it ends with an error.  Errors that blame a
  table are not among them, unless the source hands one over.  The statement about the step as it is
  carried out is `effect_step`; what a whole parse does follows by `Configuration.run_induction`.
-/
import GuardedGrammar.Proofs.Occurrences
import GuardedGrammar.Proofs.StackPath

namespace GuardedGrammar

namespace Session

/-- The scope of a rule on top of a session that holds its right-hand side. -/
def topScope (s : Session) (rule : Rule) : Scope where
  rule := rule
  entries := (s.stack.take rule.rhs.length).reverse
  registers := s.registers
  output := s.output

/-- A rule can be bound to the top of a session that holds its right-hand side, but never to the entry at
the bottom. -/
theorem scope_eq_ok_iff {s : Session} {rule : Rule} {c : Scope} :
    s.scope rule = .ok c ↔ rule.rhs.length < s.stack.length ∧
      (s.stack.take rule.rhs.length).reverse.map (·.symbol) = rule.rhs.map Symbol.name ∧
        c = s.topScope rule := by
  unfold scope
  by_cases hdeep : rule.rhs.length < s.stack.length
  · rw [if_neg (Nat.not_le.2 hdeep)]
    have hbind := @Scope.bind_eq_ok_iff rule (s.stack.take rule.rhs.length).reverse s.registers
      s.output c
    refine Iff.trans ?_ (hbind.trans (and_iff_right hdeep).symm)
    cases Scope.bind rule (s.stack.take rule.rhs.length).reverse s.registers s.output with
    | error e => exact ⟨fun h => (nomatch h), fun h => (nomatch h)⟩
    | ok c' => exact ⟨fun h => congrArg _ (Except.ok.inj h), fun h => congrArg _ (Except.ok.inj h)⟩
  · rw [if_pos (Nat.not_lt.1 hdeep)]
    exact ⟨fun h => (nomatch h), fun h => absurd h.1 hdeep⟩

/-- The guard of a rule, if there is one, holds on top of a session. -/
def GuardHolds (s : Session) (rule : Rule) : Prop :=
  ∀ c, rule.condition = some c → ((Scope.test c).run (s.topScope rule)).result = .ok true

/-- What the guard of a rule comes to on top of a session; a rule without a guard does as well as one
whose guard holds. -/
def guardResult (s : Session) (rule : Rule) : Except ParseError Bool :=
  match rule.condition with
  | none => .ok true
  | some c => ((Scope.test c).run (s.topScope rule)).result

/-- The session with the guard of a rule tested, if there is one. -/
def afterGuard (s : Session) (rule : Rule) : Session :=
  match rule.condition with
  | none => s
  | some c =>
    { s with
      registers := ((Scope.test c).run (s.topScope rule)).state.registers
      stats := { s.stats with guards := s.stats.guards + 1 } }

/-- What happens when the guard of a rule is tested; a guard that fails has not been tested to the end. -/
def guardEvents (s : Session) (index : Nat) (rule : Rule) : List Event :=
  match rule.condition with
  | none => []
  | some c =>
    ((Scope.test c).run (s.topScope rule)).events ++
      match ((Scope.test c).run (s.topScope rule)).result with
      | .error _ => []
      | .ok holds => [.guardTested index c holds]

theorem guardHolds_of_guardResult {s : Session} {rule : Rule} (h : s.guardResult rule = .ok true) :
    s.GuardHolds rule := by
  intro c hc
  unfold guardResult at h
  rw [hc] at h
  exact h

/-- Only a rule with a guard can be rejected. -/
theorem condition_ne_none_of_guardResult {s : Session} {rule : Rule}
    (h : s.guardResult rule ≠ .ok true) : rule.condition ≠ none := by
  intro hnone
  unfold guardResult at h
  rw [hnone] at h
  exact h rfl

/-- No guard is inconsistent. -/
theorem guardResult_ne_inconsistent (s : Session) (rule : Rule) (what : Inconsistency) :
    s.guardResult rule ≠ .error (.inconsistent what) := by
  unfold guardResult
  cases rule.condition with
  | none => exact nofun
  | some c => exact (Scope.confined_test c).blameless _ what

/-- Testing a guard reduces nothing. -/
theorem reducedRules_guardEvents (s : Session) (index : Nat) (rule : Rule) :
    reducedRules (s.guardEvents index rule) = [] := by
  unfold guardEvents
  cases rule.condition with
  | none => rfl
  | some c =>
    dsimp only
    rw [reducedRules_append, (Scope.confined_test c).reduces_nothing]
    cases ((Scope.test c).run (s.topScope rule)).result <;> rfl

/-- The session with a terminal shifted. -/
def shifted (s : Session) (state : Nat) (t : Terminal) : Session :=
  (s.push ⟨state, t.name, t.attributes⟩).count fun c => { c with shifts := c.shifts + 1 }

/-- The session with a rule reduced, where the action has left `scope`. -/
def reduced (s : Session) (rule : Rule) (scope : Scope) (state : Nat) (attributes : Attributes) :
    Session where
  stack := ⟨state, rule.lhs.name, attributes⟩ :: s.stack.drop rule.rhs.length
  registers := scope.registers
  stats := { s.stats with reductions := s.stats.reductions + 1 }
  output := scope.output

/-- The session with one more answer of the source. -/
def answered (s : Session) : Session := s.count fun c => { c with terminals := c.terminals + 1 }

end Session

namespace Grammar

variable {g : Grammar} {first : Rule} {rest : List Rule} {s s' s'' : Session} {t : Terminal}

/-- No guard of the grammar takes a register. -/
def GuardsTakeNoRegister (g : Grammar) : Prop :=
  ∀ r ∈ g.rules, ∀ c, r.condition = some c → ¬Scope.TakesRegister c

/-- Nothing has been done between two sessions but to test guards. -/
structure Tested (g : Grammar) (s s' : Session) : Prop where
  stack : s'.stack = s.stack
  output : s'.output = s.output
  stats : s'.stats = { s.stats with guards := s'.stats.guards }
  registers : g.GuardsTakeNoRegister → s'.registers = s.registers

theorem Tested.refl (g : Grammar) (s : Session) : g.Tested s s := ⟨rfl, rfl, rfl, fun _ => rfl⟩

theorem Tested.trans (h : g.Tested s s') (h' : g.Tested s' s'') : g.Tested s s'' where
  stack := h'.stack.trans h.stack
  output := h'.output.trans h.output
  stats := by
    rw [h'.stats, h.stats]
  registers hg := (h'.registers hg).trans (h.registers hg)

/-- What a step can do, with the rules that it reduces, what it leaves, and its result. -/
inductive Effect (g : Grammar) (source : Source) (s : Session) (t : Terminal) :
    List Rule → Session → Except ParseError Progress → Prop
  /-- The name is not that of a terminal. -/
  | unknown (hid : g.terminalId? t.name = none) :
    Effect g source s t [] s (.error (.unknownTerminal t.name (s.stats.terminals - 1)))
  /-- The cell is empty. -/
  | blocked (hcell : g.actions s.state t.name = []) :
    Effect g source s t [] s (.error (.failed (.noAction s.state t.name)))
  | accepts (hcell : .accept ∈ g.actions s.state t.name) (hheight : s.stack.length = 2) :
    Effect g source s t [] s (.ok .accepted)
  /-- The terminal is shifted, and the source has no more. -/
  | exhausts {j : Nat} (hcell : .shift j ∈ g.actions s.state t.name)
    (hreply : (source s.stats.terminals).item = none) :
    Effect g source s t [] (s.shifted j t) (.error (.failed .endOfInput))
  /-- The terminal is shifted, and the source answers. -/
  | shifts {j : Nat} {item : Except ParseError Terminal}
    (hcell : .shift j ∈ g.actions s.state t.name)
    (hreply : (source s.stats.terminals).item = some item) :
    Effect g source s t [] (s.shifted j t).answered (Progress.reading <$> item)
  /-- No guard holds, or a guard or an action fails. -/
  | refuses {p : Nat} {rules : List Rule} {s' : Session} {e : ParseError}
    (hcell : .reduce p ∈ g.actions s.state t.name)
    (hrule : (g.rule p).condition ≠ none ∨ (g.rule p).action ≠ none)
    (hpath : g.IsPath s'.stack) (herror : ∀ what, e ≠ .inconsistent what)
    (hstats : s'.stats = { s.stats with guards := s'.stats.guards }) :
    Effect g source s t rules s' (.error e)
  /-- A rule is reduced, whose guard held in `s₀`; `s₁` is what the tests of guards have left. -/
  | reduces {p j : Nat} {s₀ s₁ : Session} {scope : Scope} {attributes : Attributes}
    {events : List Event}
    (hcell : .reduce p ∈ g.actions s.state t.name) (hrule : g.Reducible s.stack p)
    (hbefore : g.Tested s s₀) (hguard : s₀.GuardHolds (g.rule p)) (hafter : g.Tested s₀ s₁)
    (hact : (act (g.rule p)).run (s₁.topScope (g.rule p)) = ⟨events, scope, .ok attributes⟩)
    (hgoto : g.goto? (StackEntry.topState (s.stack.drop (g.rule p).rhs.length))
      (g.rule p).lhs.name = some j) :
    Effect g source s t [g.rule p] (s₁.reduced (g.rule p) scope j attributes)
      (.ok (.reading t))

/-- What has been done is one of the effects of a step. -/
def HasEffect (g : Grammar) (source : Source) (s : Session) (t : Terminal)
    (done : Completed Session ParseError Progress) : Prop :=
  g.Effect source s t (reducedRules done.events) done.state done.result

/-! ## In the scope of a rule -/

/-- A rule that can be reduced can be bound to the top of the stack. -/
theorem Reducible.scope_eq {p : Nat} (h : g.Reducible s.stack p) :
    s.scope (g.rule p) = .ok (s.topScope (g.rule p)) :=
  Session.scope_eq_ok_iff.2 ⟨h.length_lt, h.symbols, rfl⟩

/-- What is done in the scope of a rule that can be reduced happens on the session. -/
theorem run_inScope {α : Type} {p : Nat} (h : g.Reducible s.stack p)
    (task : Task Scope ParseError α) :
    (Session.inScope (g.rule p) task).run s =
      ⟨(task.run (s.topScope (g.rule p))).events,
        s.afterScope (task.run (s.topScope (g.rule p))).state,
        (task.run (s.topScope (g.rule p))).result⟩ := by
  rw [Session.run_inScope, h.scope_eq]

/-- The state on top is told by the places of the entries. -/
theorem topState_append {upper upper' lower : List StackEntry}
    (h : upper'.map StackEntry.place = upper.map StackEntry.place) :
    StackEntry.topState (upper' ++ lower) = StackEntry.topState (upper ++ lower) := by
  cases upper with
  | nil =>
    obtain rfl := List.map_eq_nil_iff.1 h
    rfl
  | cons e upper =>
    obtain ⟨e', upper', rfl, he, -⟩ := List.map_eq_cons_iff.1 h
    exact congrArg Prod.fst he

/-- Attributes do not matter to a path. -/
theorem IsPath.replace {upper upper' lower : List StackEntry} (h : g.IsPath (upper ++ lower))
    (hlower : lower ≠ [])
    (hplaces : upper'.map StackEntry.place = upper.map StackEntry.place) :
    g.IsPath (upper' ++ lower) := by
  induction upper generalizing upper' with
  | nil =>
    obtain rfl := List.map_eq_nil_iff.1 hplaces
    exact h
  | cons e upper ih =>
    obtain ⟨e', upper', rfl, he, hrest⟩ := List.map_eq_cons_iff.1 hplaces
    rw [List.cons_append] at h
    generalize hstack : e :: (upper ++ lower) = stack at h
    cases h with
    | bottom =>
      have hnil := (List.cons.inj hstack).2
      -- the bottom has not been replaced, since it belongs to what is below
      exact absurd (List.append_eq_nil_iff.1 hnil).2 hlower
    | push path leads =>
      obtain ⟨rfl, rfl⟩ := List.cons.inj hstack
      refine (ih path hrest).push ?_
      -- the entry leads from the same state to the same state
      rw [topState_append hrest]
      injection he with hstate hsymbol
      rw [hstate, hsymbol]
      exact leads

/-- Whatever is done in the scope of a rule, the stack remains a path. -/
theorem isPath_afterScope {α : Type} (hpath : g.IsPath s.stack) {p : Nat}
    (h : g.Reducible s.stack p) {task : Task Scope ParseError α} (ht : Scope.Confined task) :
    g.IsPath (s.afterScope (task.run (s.topScope (g.rule p))).state).stack := by
  rw [← List.take_append_drop (g.rule p).rhs.length s.stack] at hpath
  have hplaces := ht.places (s.topScope (g.rule p))
  have hrule := ht.rule (s.topScope (g.rule p))
  unfold Session.afterScope
  dsimp only
  rw [hrule]
  refine hpath.replace ?_ ?_
  · exact h.drop_ne_nil
  · rw [List.map_reverse, hplaces]
    show (List.map _ (s.stack.take _).reverse).reverse = _
    rw [List.map_reverse, List.reverse_reverse]

/-! ## Choosing a reduction -/

/-- A guard is tested on top of the session, and all but the counters is put back as it was. -/
theorem run_testGuard {p : Nat} {c : Condition} (hc : (g.rule p).condition = some c)
    (hscope : s.scope (g.rule p) = .ok (s.topScope (g.rule p))) :
    (g.testGuard p c).run s =
      ⟨s.guardEvents p (g.rule p), s.afterGuard (g.rule p), s.guardResult (g.rule p)⟩ := by
  let counted := s.count fun stats => { stats with guards := stats.guards + 1 }
  have hcounted : counted.scope (g.rule p) = .ok (s.topScope (g.rule p)) := hscope
  have hafter : counted.afterScope ((Scope.test c).run (s.topScope (g.rule p))).state =
      s.afterGuard (g.rule p) := by
    -- taking the entries off and putting them on again leaves the stack as it was
    have hstack : (s.stack.take (g.rule p).rhs.length).reverse.reverse ++
        s.stack.drop (g.rule p).rhs.length = s.stack := by
      rw [List.reverse_reverse]
      exact List.take_append_drop _ _
    unfold Session.afterGuard
    rw [hc, Scope.state_test]
    dsimp only
    generalize ((Scope.test c).run (s.topScope (g.rule p))).state.registers = registers
    exact congrArg (fun stack => { counted with stack, registers }) hstack
  unfold testGuard Session.guardEvents Session.guardResult
  rw [Task.run_modify_bind, Task.run_bind, Session.run_inScope, hcounted, hc]
  dsimp only
  rw [hafter]
  cases ((Scope.test c).run (s.topScope (g.rule p))).result with
  | error e =>
    dsimp only
    rw [List.append_nil]
  | ok holds => rfl

/-- Testing a guard changes nothing but registers and the count of guards. -/
theorem tested_afterGuard {p : Nat} (hp : g.rule p ∈ g.rules) (s : Session) :
    g.Tested s (s.afterGuard (g.rule p)) := by
  unfold Session.afterGuard
  cases hc : (g.rule p).condition with
  | none => exact .refl g s
  | some c =>
    refine ⟨rfl, rfl, rfl, fun hg => ?_⟩
    show ((Scope.test c).run (s.topScope (g.rule p))).state.registers = s.registers
    rw [Scope.state_test_of_not_takesRegister (hg _ hp c hc)]
    rfl

/-- What the first of several rules comes to. -/
theorem run_firstApplicable_cons {p : Nat}
    (hscope : s.scope (g.rule p) = .ok (s.topScope (g.rule p))) (rest : List Nat) :
    (g.firstApplicable (p :: rest)).run s =
      match s.guardResult (g.rule p) with
      | .error e => ⟨s.guardEvents p (g.rule p), s.afterGuard (g.rule p), .error e⟩
      | .ok true => ⟨s.guardEvents p (g.rule p), s.afterGuard (g.rule p), .ok (some p)⟩
      | .ok false =>
        ⟨s.guardEvents p (g.rule p) ++
            ((g.firstApplicable rest).run (s.afterGuard (g.rule p))).events,
          ((g.firstApplicable rest).run (s.afterGuard (g.rule p))).state,
          ((g.firstApplicable rest).run (s.afterGuard (g.rule p))).result⟩ := by
  rw [firstApplicable]
  cases hc : (g.rule p).condition with
  -- without a guard nothing is tested
  | none =>
    unfold Session.guardResult Session.guardEvents Session.afterGuard
    rw [hc]
    rfl
  | some c =>
    dsimp only
    rw [Task.run_bind, run_testGuard hc hscope]
    cases s.guardResult (g.rule p) with
    | error e => rfl
    | ok holds =>
      cases holds with
      | true =>
        show Completed.mk (_ ++ []) _ _ = _
        rw [List.append_nil]
        rfl
      | false => rfl

/-- What looking for a reduction among several can come to. -/
inductive Choice (g : Grammar) (s : Session) (indices : List Nat) :
    Session → Except ParseError (Option Nat) → Prop
  | made {p : Nat} {s₀ s₁ : Session} (hp : p ∈ indices) (hbefore : g.Tested s s₀)
    (hguard : s₀.GuardHolds (g.rule p)) (hafter : g.Tested s₀ s₁) :
    Choice g s indices s₁ (.ok (some p))
  | undecided {s₁ : Session} (htested : g.Tested s s₁)
    (hall : ∀ p ∈ indices, (g.rule p).condition ≠ none) : Choice g s indices s₁ (.ok none)
  | failed {p : Nat} {s₁ : Session} {e : ParseError} (hp : p ∈ indices)
    (hcondition : (g.rule p).condition ≠ none) (htested : g.Tested s s₁)
    (herror : ∀ what, e ≠ .inconsistent what) : Choice g s indices s₁ (.error e)

/-- A choice among the later ones of several is one among all, if the first has been tested before. -/
theorem Choice.cons {indices : List Nat} {p : Nat} {r : Except ParseError (Option Nat)}
    (h : g.Tested s s') (hp : (g.rule p).condition ≠ none) (hc : g.Choice s' indices s'' r) :
    g.Choice s (p :: indices) s'' r := by
  cases hc with
  | made hq hbefore hguard hafter =>
    exact .made (List.mem_cons_of_mem _ hq) (h.trans hbefore) hguard hafter
  | undecided htested hall => exact .undecided (h.trans htested) (List.forall_mem_cons.2 ⟨hp, hall⟩)
  | failed hq hcondition htested herror =>
    exact .failed (List.mem_cons_of_mem _ hq) hcondition (h.trans htested) herror

/-- The first of several reductions whose guard holds is found, if there is one; nothing is reduced
yet. -/
theorem choice_firstApplicable (indices : List Nat) (hred : ∀ p ∈ indices, g.Reducible s.stack p)
    (hmem : ∀ p ∈ indices, g.rule p ∈ g.rules) :
    g.Choice s indices ((g.firstApplicable indices).run s).state
        ((g.firstApplicable indices).run s).result ∧
      reducedRules ((g.firstApplicable indices).run s).events = [] := by
  induction indices generalizing s with
  | nil => exact ⟨.undecided (.refl g s) fun p hp => absurd hp List.not_mem_nil, rfl⟩
  | cons p rest ih =>
    obtain ⟨hp, hrest⟩ := List.forall_mem_cons.1 hred
    obtain ⟨hrule, hrules⟩ := List.forall_mem_cons.1 hmem
    have htested := tested_afterGuard hrule s
    have hquiet := s.reducedRules_guardEvents p (g.rule p)
    have hguarded : s.guardResult (g.rule p) ≠ .ok true → (g.rule p).condition ≠ none :=
      Session.condition_ne_none_of_guardResult
    rw [run_firstApplicable_cons hp.scope_eq]
    cases hresult : s.guardResult (g.rule p) with
    | error e =>
      rw [hresult] at hguarded
      refine ⟨.failed List.mem_cons_self (hguarded nofun) htested fun what he => ?_, hquiet⟩
      exact s.guardResult_ne_inconsistent _ what (hresult.trans (congrArg Except.error he))
    | ok holds =>
      cases holds with
      | true =>
        -- the guard held before it was tested, in the session that the test began with
        have hholds := Session.guardHolds_of_guardResult hresult
        exact ⟨.made List.mem_cons_self (.refl g s) hholds htested, hquiet⟩
      | false =>
        rw [hresult] at hguarded
        -- the stack is the same after the test, so the others can still be reduced
        have hstack : ∀ q ∈ rest, g.Reducible (s.afterGuard (g.rule p)).stack q :=
          fun q hq => htested.stack ▸ hrest q hq
        obtain ⟨hchoice, hevents⟩ := ih hstack hrules
        refine ⟨hchoice.cons htested (hguarded nofun), ?_⟩
        show reducedRules (_ ++ _) = []
        rw [reducedRules_append, hquiet]
        exact hevents

/-! Ranking changes the order of reductions only. -/

theorem rank_perm (p : Nat) (indices : List Nat) : (g.rank p indices).Perm (p :: indices) := by
  induction indices with
  | nil => exact .refl _
  | cons q rest ih =>
    unfold rank
    split
    · exact .refl _
    · exact (ih.cons q).trans (.swap p q rest)

theorem ranked_perm (indices : List Nat) : (g.ranked indices).Perm indices := by
  induction indices with
  | nil => exact .refl _
  | cons p rest ih => exact (rank_perm p _).trans (ih.cons p)

theorem mem_ranked (indices : List Nat) (p : Nat) : p ∈ g.ranked indices ↔ p ∈ indices :=
  (ranked_perm indices).mem_iff

/-- A cell that is made up of reductions is taken for one. -/
theorem reductions?_map_reduce (indices : List Nat) :
    reductions? (indices.map .reduce) = some indices := by
  induction indices with
  | nil => rfl
  | cons p rest ih =>
    unfold reductions? at ih ⊢
    rw [List.map_cons, List.mapM_cons, ih]
    rfl

/-! ## Reducing -/

/-- The left-hand side is pushed with the state that it leads to. -/
theorem run_pushLhs (hg : g.IsBuiltFrom first rest) {p j : Nat}
    (hp : ∃ q, g.automaton.productions[p]? = some q)
    (hj : g.goto? s.state (g.rule p).lhs.name = some j) (attributes : Attributes) :
    (g.pushLhs p attributes).run s =
      ⟨[.wentTo j], (s.push ⟨j, (g.rule p).lhs.name, attributes⟩).count fun c =>
        { c with reductions := c.reductions + 1 }, .ok ()⟩ := by
  obtain ⟨q, hq⟩ := hp
  have hgoto := ((g.goto?_eq_some_iff _ _ _).1 hj).2
  rw [← hg.lhsOf_eq hq] at hgoto
  unfold pushLhs
  rw [Task.run_get_bind]
  dsimp only
  rw [hgoto]
  rfl

/-- What an action has left in its scope is taken off the stack. -/
theorem pop_afterScope {p : Nat} (h : g.Reducible s.stack p) :
    (s.afterScope ((act (g.rule p)).run (s.topScope (g.rule p))).state).pop (g.rule p).rhs.length =
      { s with
        stack := s.stack.drop (g.rule p).rhs.length
        registers := ((act (g.rule p)).run (s.topScope (g.rule p))).state.registers
        output := ((act (g.rule p)).run (s.topScope (g.rule p))).state.output } := by
  have hact := Scope.confined_act (g.rule p)
  have hlen := congrArg List.length (hact.places (s.topScope (g.rule p)))
  have hheight := congrArg List.length h.symbols
  rw [List.length_map, List.length_map] at hlen hheight
  unfold Session.pop Session.afterScope
  rw [hact.rule]
  congr 1
  show List.drop _ (_ ++ s.stack.drop (g.rule p).rhs.length) = _
  rw [List.drop_append_of_le_length (by rw [List.length_reverse, hlen]; exact hheight.ge)]
  rw [List.drop_of_length_le (by rw [List.length_reverse, hlen]; exact hheight.le)]
  rfl

/-- If its action fails, a reduction ends there. -/
theorem run_reduce_of_error {p : Nat} (h : g.Reducible s.stack p) {e : ParseError}
    (hact : ((act (g.rule p)).run (s.topScope (g.rule p))).result = .error e) :
    ((g.reduce p).run s).result = .error e ∧
      ((g.reduce p).run s).state =
        s.afterScope ((act (g.rule p)).run (s.topScope (g.rule p))).state := by
  unfold reduce
  rw [Task.run_note_bind, Task.run_bind, run_inScope h, hact]
  exact ⟨rfl, rfl⟩

/-- Otherwise the right-hand side gives way to the left-hand side, with the state that is gone to. -/
theorem run_reduce_of_ok (hg : g.IsBuiltFrom first rest) {p j : Nat}
    (h : g.Reducible s.stack p)
    (hj : g.goto? (StackEntry.topState (s.stack.drop (g.rule p).rhs.length))
      (g.rule p).lhs.name = some j) {scope : Scope} {events : List Event} {attributes : Attributes}
    (hact : (act (g.rule p)).run (s.topScope (g.rule p)) = ⟨events, scope, .ok attributes⟩) :
    (g.reduce p).run s = ⟨.reduced p (g.rule p) :: events ++ [.wentTo j],
      s.reduced (g.rule p) scope j attributes, .ok ()⟩ := by
  have hpop := pop_afterScope h
  have hrun := run_inScope h (act (g.rule p))
  rw [hact] at hpop hrun
  dsimp only at hpop hrun
  have hpush := run_pushLhs (s := { s with
    stack := s.stack.drop (g.rule p).rhs.length
    registers := scope.registers
    output := scope.output }) hg h.production hj attributes
  unfold reduce
  rw [Task.run_note_bind, Task.run_bind_of_ok hrun, Task.run_modify_bind, hpop, hpush]
  rfl

/-! ## A step

By what is in the cell for the terminal ahead: nothing, acceptance, a shift, or reductions. -/

/-- What becomes of a rule that has been chosen. -/
theorem effect_reduce (hg : g.IsBuiltFrom first rest) (source : Source)
    (hpath : g.IsPath s.stack) {p : Nat} (hcell : .reduce p ∈ g.actions s.state t.name)
    {s₀ s₁ : Session} (hbefore : g.Tested s s₀) (hguard : s₀.GuardHolds (g.rule p))
    (hafter : g.Tested s₀ s₁) :
    g.HasEffect source s t ((g.reduce p >>= fun _ => pure (.reading t)).run s₁) := by
  have hred := hpath.reducible_of_mem_actions hg hcell
  have hstack : s₁.stack = s.stack := (hbefore.trans hafter).stack
  have hred₁ : g.Reducible s₁.stack p := hstack.symm ▸ hred
  have hconfined := Scope.confined_act (g.rule p)
  rw [Task.run_bind]
  cases hact : (act (g.rule p)).run (s₁.topScope (g.rule p)) with
  | mk events scope result =>
    cases result with
    | error e =>
      obtain ⟨hresult, hstate⟩ := run_reduce_of_error hred₁ (congrArg Completed.result hact)
      rw [hresult, hstate]
      refine .refuses hcell (.inr fun hnone => ?_) ?_ (fun what he => ?_) ?_
      · -- a rule without an action has nothing to fail
        unfold act at hact
        rw [hnone] at hact
        exact nomatch congrArg Completed.result hact
      · exact isPath_afterScope (hstack ▸ hpath) hred₁ hconfined
      · subst he
        exact hconfined.blameless _ what (congrArg Completed.result hact)
      · exact (hbefore.trans hafter).stats
    | ok attributes =>
      obtain ⟨j, hj⟩ := hred₁.goto
      have hrun := run_reduce_of_ok hg hred₁ hj hact
      have hquiet := hconfined.reduces_nothing (s₁.topScope (g.rule p))
      rw [hact] at hquiet
      rw [hrun]
      rw [hstack] at hj
      have hrules : reducedRules ((.reduced p (g.rule p) :: events ++ [.wentTo j]) ++ []) =
          [g.rule p] := by
        rw [List.append_nil, List.cons_append]
        show g.rule p :: reducedRules (events ++ [.wentTo j]) = _
        rw [reducedRules_append, hquiet]
        rfl
      show g.Effect source s t (reducedRules ((.reduced p _ :: events ++ _) ++ [])) _ _
      rw [hrules]
      exact .reduces hcell hred hbefore hguard hafter hact hj

/-- What a cell with reductions does. -/
theorem effect_select (hg : g.IsBuiltFrom first rest) (source : Source)
    (hpath : g.IsPath s.stack) {p : Nat} {ps : List Nat}
    (hcell : g.actions s.state t.name = (p :: ps).map .reduce) :
    g.HasEffect source s t ((g.select ((p :: ps).map .reduce) s.state t.name >>= fun index =>
      g.reduce index >>= fun _ => pure (.reading t)).run s) := by
  -- all candidates are in the cell, and so each of them can be reduced
  have hin : ∀ q ∈ g.ranked (p :: ps), .reduce q ∈ g.actions s.state t.name := fun q hq => by
    rw [hcell]
    exact List.mem_map_of_mem ((mem_ranked _ _).1 hq)
  have hred : ∀ q ∈ g.ranked (p :: ps), g.Reducible s.stack q := fun q hq =>
    hpath.reducible_of_mem_actions hg (hin q hq)
  have hmem : ∀ q ∈ g.ranked (p :: ps), g.rule q ∈ g.rules := fun q hq => by
    obtain ⟨_, hprod⟩ := (hred q hq).production
    exact hg.rule_mem hprod
  obtain ⟨hchoice, hquiet⟩ := choice_firstApplicable _ hred hmem
  unfold select
  rw [reductions?_map_reduce]
  dsimp only
  rw [Task.run_bind, Task.run_bind]
  generalize (g.firstApplicable (g.ranked (p :: ps))).run s = done at hchoice hquiet ⊢
  obtain ⟨events, s₁, result⟩ := done
  cases hchoice with
  | @made q s₀ s₁ hq hbefore hguard hafter =>
    have heffect := effect_reduce hg source hpath (t := t) (hin q hq) hbefore hguard hafter
    show g.Effect source s t (reducedRules ((events ++ []) ++ _)) _ _
    rw [List.append_nil, reducedRules_append]
    dsimp only at hquiet
    rw [hquiet]
    exact heffect
  | undecided htested hall =>
    refine .refuses (hin p ((mem_ranked _ _).2 List.mem_cons_self))
      (.inl (hall p ((mem_ranked _ _).2 List.mem_cons_self))) ?_ (fun _ h => nomatch h)
      htested.stats
    exact htested.stack.symm ▸ hpath
  | failed hq hcondition htested herror =>
    exact .refuses (hin _ hq) (.inl hcondition) (htested.stack.symm ▸ hpath) herror htested.stats

/-- Applying a function to the result changes nothing else. -/
theorem run_map {σ ε α β : Type} (f : α → β) (task : Task σ ε α) (s : σ) :
    (f <$> task).run s = ⟨(task.run s).events, (task.run s).state, f <$> (task.run s).result⟩ := by
  show (task >>= fun a => pure (f a)).run s = _
  rw [Task.run_bind]
  cases (task.run s).result with
  | error e => rfl
  | ok a =>
    show Completed.mk (_ ++ []) _ _ = _
    rw [List.append_nil]
    rfl

theorem reducedRules_matched (seen : List Matched) : reducedRules (seen.map .matched) = [] := by
  induction seen with
  | nil => rfl
  | cons _ _ ih => exact ih

/-- Asking the source does not get beyond its answer. -/
theorem run_pull (source : Source) (s : Session) :
    (Session.pull source).run s =
      match (source s.stats.terminals).item with
      | none => ⟨(source s.stats.terminals).seen.map .matched, s, .error (.failed .endOfInput)⟩
      | some item => ⟨(source s.stats.terminals).seen.map .matched, s.answered, item⟩ :=
  rfl

/-- What a cell does that has a terminal to shift. -/
theorem effect_shift (source : Source) {j : Nat}
    (hcell : .shift j ∈ g.actions s.state t.name) :
    g.HasEffect source s t ((do
      shift j t
      Progress.reading <$> Session.pull source).run s) := by
  have hshift : (shift j t).run s = ⟨[.shifted j], s.shifted j t, .ok ()⟩ := rfl
  rw [Task.run_bind_of_ok hshift, run_map, run_pull]
  cases hitem : (source s.stats.terminals).item with
  -- the terminal is shifted before it turns out that the source has no more
  | none =>
    have hreply : (source (s.shifted j t).stats.terminals).item = none := hitem
    have heffect := Effect.exhausts (g := g) hcell hitem
    rw [hreply]
    unfold HasEffect
    rw [reducedRules_append, reducedRules_matched]
    exact heffect
  | some item =>
    have hreply : (source (s.shifted j t).stats.terminals).item = some item := hitem
    have heffect := Effect.shifts (g := g) hcell hitem
    rw [hreply]
    unfold HasEffect
    rw [reducedRules_append, reducedRules_matched]
    exact heffect

/-- What a cell does. -/
theorem effect_carryOut (hg : g.IsBuiltFrom first rest) (source : Source)
    (hpath : g.IsPath s.stack) {c : Cell} (hc : g.actions s.state t.name = c) :
    g.HasEffect source s t ((g.carryOut source c s.state t).run s) := by
  have hdecided : c.IsDecided := hc ▸ hg.isDecided_actions s.state t.name
  cases hdecided with
  | empty => exact .blocked hc
  | accept =>
    have haccept : .accept ∈ g.actions s.state t.name := hc ▸ List.mem_cons_self
    -- the path has one symbol on it, so the height is not found wanting
    obtain ⟨-, entry, hstack, -⟩ := hpath.of_accept_mem_actions hg haccept
    have hheight : s.stack.length = 2 := congrArg List.length hstack
    have hrun : conclude.run s = ⟨[.accepted], s, .ok .accepted⟩ := by
      unfold conclude
      rw [Task.run_note_bind, Task.run_get_bind, if_pos hheight]
      rfl
    show g.HasEffect source s t (conclude.run s)
    rw [hrun]
    exact .accepts haccept hheight
  | shift j => exact effect_shift source (hc ▸ List.mem_cons_self)
  | reductions p ps => exact effect_select hg source hpath hc

/-- A step has one of the effects. -/
theorem effect_step (hg : g.IsBuiltFrom first rest) (source : Source)
    (hpath : g.IsPath s.stack) : g.HasEffect source s t ((g.step source t).run s) := by
  unfold step
  rw [Task.run_get_bind, Task.run_note_bind]
  cases hid : g.terminalId? t.name with
  | none => exact .unknown hid
  | some id => exact effect_carryOut hg source hpath (actions_of_terminalId? hid _)

end Grammar

end GuardedGrammar
