/-
  Choosing a reduction.

  Where a cell has several reductions, they are considered one after the other: longer right-hand sides
  first, and of equally long ones those declared first.  How the cell lists them does not matter, for no
  two of them come at the same place of this order (`Outranks`).

  A reduction with a guard is passed over if the guard does not hold.  To test a guard may take
  registers, so each guard is tested in the session that the ones before have left (`afterGuards`).  The
  first reduction that is not passed over is chosen, or its guard has failed (`Reaches`), and those
  behind it are not looked at.

  Main statement: `select_takes_first_applicable`.
-/
import GuardedGrammar.Proofs.DeclaredTables
import GuardedGrammar.Proofs.Effects
import GuardedGrammar.Proofs.Registers

namespace GuardedGrammar

/-! ## Testing a guard -/

namespace Session

variable {s : Session} {rule : Rule}

/-- The rule can be bound to the top of the session. -/
def CanBind (s : Session) (rule : Rule) : Prop := ∃ c, s.scope rule = .ok c

theorem CanBind.scope_eq (h : s.CanBind rule) : s.scope rule = .ok (s.topScope rule) := by
  obtain ⟨c, hc⟩ := h
  obtain ⟨-, -, rfl⟩ := scope_eq_ok_iff.1 hc
  exact hc

/-- Which rules can be bound depends on the stack alone. -/
theorem CanBind.of_stack {s' : Session} (h : s.CanBind rule) (hstack : s'.stack = s.stack) :
    s'.CanBind rule := by
  obtain ⟨c, hc⟩ := h
  obtain ⟨hdeep, hsymbols, -⟩ := scope_eq_ok_iff.1 hc
  refine ⟨s'.topScope rule, scope_eq_ok_iff.2 ⟨?_, ?_, rfl⟩⟩
  · rwa [hstack]
  · rwa [hstack]

/-- Between two sessions, guards have been tested: as many as given. -/
structure HasTested (s s' : Session) (guards : Nat) : Prop where
  stack : s'.stack = s.stack
  output : s'.output = s.output
  stats : s'.stats = { s.stats with guards := s.stats.guards + guards }
  registers : s.registers ≤ s'.registers

theorem HasTested.trans {s' s'' : Session} {m n : Nat} (h : s.HasTested s' m)
    (h' : s'.HasTested s'' n) : s.HasTested s'' (m + n) where
  stack := h'.stack.trans h.stack
  output := h'.output.trans h.output
  stats := by rw [h'.stats, h.stats, Nat.add_assoc]
  registers := Nat.le_trans h.registers h'.registers

/-! A guard that there is counts as a test, so as many are tested as the rules have. -/

theorem hasTested_afterGuard (s : Session) (rule : Rule) :
    s.HasTested (s.afterGuard rule) (if rule.isGuarded then 1 else 0) := by
  unfold afterGuard Rule.isGuarded
  cases rule.condition with
  | none => exact ⟨rfl, rfl, rfl, Nat.le_refl _⟩
  | some c =>
    obtain ⟨k, hregisters, -⟩ := Scope.composes_takesInOrder.test c (s.topScope rule)
    have hle : s.registers ≤ ((Scope.test c).run (s.topScope rule)).state.registers :=
      hregisters ▸ Nat.le_add_right _ _
    exact ⟨rfl, rfl, rfl, hle⟩

/-- A guard that does not come to a value blames an attribute that it reads. -/
theorem blamesReference_of_guardResult {e : ParseError} (h : s.guardResult rule = .error e) :
    e.BlamesReference := by
  unfold guardResult at h
  cases hc : rule.condition with
  | none =>
    rw [hc] at h
    exact nomatch h
  | some c =>
    rw [hc] at h
    exact Scope.blamesReference_of_test h

end Session

namespace Grammar

variable {g : Grammar} {first : Rule} {rest : List Rule} {s : Session}

/-! ## One after the other -/

/-- The session in which the guards of rules have been tested, one after the other. -/
def afterGuards (g : Grammar) (s : Session) (indices : List Nat) : Session :=
  indices.foldl (fun s p => s.afterGuard (g.rule p)) s

/-- What happens when the guards of rules are tested, one after the other. -/
def eventsOfGuards (g : Grammar) : Session → List Nat → List Event
  | _, [] => []
  | s, p :: rest => s.guardEvents p (g.rule p) ++ g.eventsOfGuards (s.afterGuard (g.rule p)) rest

/-- The rules all have guards, and none of these holds when they are tested one after the other. -/
def AllRejected (g : Grammar) : Session → List Nat → Prop
  | _, [] => True
  | s, p :: rest =>
    s.guardResult (g.rule p) = .ok false ∧ g.AllRejected (s.afterGuard (g.rule p)) rest

/-- A rule is considered when all before it have been rejected, and this is what its guard then comes
to. -/
structure Reaches (g : Grammar) (s : Session) (order before : List Nat) (p : Nat)
    (result : Except ParseError Bool) : Prop where
  leads : before ++ [p] <+: order
  rejected : g.AllRejected s before
  result : (g.afterGuards s before).guardResult (g.rule p) = result

theorem hasTested_afterGuards (g : Grammar) (s : Session) (indices : List Nat) :
    s.HasTested (g.afterGuards s indices)
      (indices.filter fun p => (g.rule p).isGuarded).length := by
  induction indices generalizing s with
  | nil => exact ⟨rfl, rfl, rfl, Nat.le_refl _⟩
  | cons p rest ih =>
    have hall := (s.hasTested_afterGuard (g.rule p)).trans (ih (s.afterGuard (g.rule p)))
    rw [List.filter_cons]
    cases hguarded : (g.rule p).isGuarded with
    | true =>
      rw [hguarded, if_pos rfl, Nat.add_comm] at hall
      exact hall
    | false =>
      rw [hguarded, if_neg Bool.false_ne_true, Nat.zero_add] at hall
      exact hall

/-- Rules that are rejected are passed over. -/
theorem run_firstApplicable_append {before : List Nat} (rest : List Nat)
    (hbound : ∀ p ∈ before, s.CanBind (g.rule p)) (hrejected : g.AllRejected s before) :
    (g.firstApplicable (before ++ rest)).run s =
      ((g.firstApplicable rest).run (g.afterGuards s before)).behind (g.eventsOfGuards s before) := by
  induction before generalizing s with
  | nil => rfl
  | cons p before ih =>
    obtain ⟨hp, hbefore⟩ := List.forall_mem_cons.1 hbound
    obtain ⟨hresult, hrejected⟩ := hrejected
    have hstack := (s.hasTested_afterGuard (g.rule p)).stack
    rw [List.cons_append, run_firstApplicable_cons hp.scope_eq, hresult]
    dsimp only
    rw [ih (fun q hq => (hbefore q hq).of_stack hstack) hrejected]
    unfold Completed.behind
    dsimp only
    rw [← List.append_assoc]
    rfl

/-- Guards are tested one after the other, and so they are noted. -/
theorem eventsOfGuards_append (g : Grammar) (s : Session) (before after : List Nat) :
    g.eventsOfGuards s (before ++ after) =
      g.eventsOfGuards s before ++ g.eventsOfGuards (g.afterGuards s before) after := by
  induction before generalizing s with
  | nil => rfl
  | cons p before ih =>
    show s.guardEvents p (g.rule p) ++ g.eventsOfGuards _ (before ++ after) =
      (s.guardEvents p (g.rule p) ++ g.eventsOfGuards _ before) ++ _
    rw [ih, List.append_assoc]
    rfl

/-- A rule that is considered and not rejected settles the matter. -/
theorem run_firstApplicable_of_reaches {order before : List Nat} {p : Nat}
    {result : Except ParseError Bool} (hbound : ∀ q ∈ order, s.CanBind (g.rule q))
    (h : g.Reaches s order before p result) (hresult : result ≠ .ok false) :
    (g.firstApplicable order).run s = ⟨g.eventsOfGuards s (before ++ [p]),
      g.afterGuards s (before ++ [p]), (fun _ => some p) <$> result⟩ := by
  obtain ⟨after, rfl⟩ := h.leads
  have hp : (g.afterGuards s before).CanBind (g.rule p) :=
    (hbound p (by simp)).of_stack (g.hasTested_afterGuards s before).stack
  have hbefore : ∀ q ∈ before, s.CanBind (g.rule q) := fun q hq => hbound q (by simp [hq])
  -- the rules before are rejected, and the search goes on with this one
  rw [List.append_assoc, run_firstApplicable_append _ hbefore h.rejected, List.singleton_append,
    run_firstApplicable_cons hp.scope_eq, h.result, eventsOfGuards_append]
  unfold afterGuards
  rw [List.foldl_append]
  unfold Completed.behind eventsOfGuards
  match result with
  | .error e =>
    show Completed.mk _ _ _ = _
    rw [eventsOfGuards, List.append_nil]
    rfl
  | .ok true =>
    show Completed.mk _ _ _ = _
    rw [eventsOfGuards, List.append_nil]
    rfl
  | .ok false => exact absurd rfl hresult

/-- If all rules are rejected, none is found. -/
theorem run_firstApplicable_of_allRejected {order : List Nat}
    (hbound : ∀ q ∈ order, s.CanBind (g.rule q)) (h : g.AllRejected s order) :
    (g.firstApplicable order).run s =
      ⟨g.eventsOfGuards s order, g.afterGuards s order, .ok none⟩ := by
  have hrun := run_firstApplicable_append [] hbound h
  rw [List.append_nil] at hrun
  rw [hrun]
  show Completed.mk (_ ++ []) _ _ = _
  rw [List.append_nil]
  rfl

/-- All rules are rejected, or there is a first one that is not. -/
theorem allRejected_or_reaches (g : Grammar) (s : Session) (order : List Nat) :
    g.AllRejected s order ∨
      ∃ before p result, g.Reaches s order before p result ∧ result ≠ .ok false := by
  induction order generalizing s with
  | nil => exact .inl trivial
  | cons p rest ih =>
    by_cases hresult : s.guardResult (g.rule p) = .ok false
    · rcases ih (s.afterGuard (g.rule p)) with hall | ⟨before, q, result, hreaches, hne⟩
      · exact .inl ⟨hresult, hall⟩
      · refine .inr ⟨p :: before, q, result, ⟨?_, ⟨hresult, hreaches.rejected⟩, hreaches.result⟩, hne⟩
        exact (List.prefix_cons_inj p).2 hreaches.leads
    · exact .inr ⟨[], p, _, ⟨⟨rest, rfl⟩, trivial, rfl⟩, hresult⟩

/-- What becomes of the search, by what the guards come to. -/
theorem result_firstApplicable {order : List Nat} (hbound : ∀ q ∈ order, s.CanBind (g.rule q)) :
    (∀ p, ((g.firstApplicable order).run s).result = .ok (some p) ↔
        ∃ before, g.Reaches s order before p (.ok true)) ∧
      (((g.firstApplicable order).run s).result = .ok none ↔ g.AllRejected s order) ∧
      ∀ e, ((g.firstApplicable order).run s).result = .error e ↔
        ∃ before p, g.Reaches s order before p (.error e) := by
  -- that the guards determine the result is known; it remains that they come to one of these ends
  have hchosen : ∀ p before, g.Reaches s order before p (.ok true) →
      ((g.firstApplicable order).run s).result = .ok (some p) := fun p before h => by
    rw [run_firstApplicable_of_reaches hbound h (fun h => nomatch h)]
    rfl
  have hfailed : ∀ e before p, g.Reaches s order before p (.error e) →
      ((g.firstApplicable order).run s).result = .error e := fun e before p h => by
    rw [run_firstApplicable_of_reaches hbound h (fun h => nomatch h)]
    rfl
  have hnone : g.AllRejected s order → ((g.firstApplicable order).run s).result = .ok none :=
    fun h => by rw [run_firstApplicable_of_allRejected hbound h]
  refine ⟨fun p => ⟨fun h => ?_, fun ⟨before, hp⟩ => hchosen p before hp⟩, ⟨fun h => ?_, hnone⟩,
    fun e => ⟨fun h => ?_, fun ⟨before, p, hp⟩ => hfailed e before p hp⟩⟩
  all_goals
    rcases g.allRejected_or_reaches s order with hall | ⟨before, q, result, hreaches, hne⟩
  · exact nomatch (hnone hall).symm.trans h
  · match result with
    | .ok true =>
      obtain rfl := Option.some.inj (Except.ok.inj ((hchosen q before hreaches).symm.trans h))
      exact ⟨before, hreaches⟩
    | .ok false => exact absurd rfl hne
    | .error e => exact nomatch (hfailed e before q hreaches).symm.trans h
  · exact hall
  · match result with
    | .ok true => exact nomatch Except.ok.inj ((hchosen q before hreaches).symm.trans h)
    | .ok false => exact absurd rfl hne
    | .error e => exact nomatch (hfailed e before q hreaches).symm.trans h
  · exact nomatch (hnone hall).symm.trans h
  · match result with
    | .ok true => exact nomatch (hchosen q before hreaches).symm.trans h
    | .ok false => exact absurd rfl hne
    | .error e' =>
      obtain rfl := Except.error.inj ((hfailed e' before q hreaches).symm.trans h)
      exact ⟨before, q, hreaches⟩

/-! ## The order -/

/-- Longer right-hand sides come first, and of equally long ones those that are declared first. -/
def Outranks (g : Grammar) (p q : Nat) : Prop :=
  (g.rule q).rhs.length < (g.rule p).rhs.length ∨
    (g.rule p).rhs.length = (g.rule q).rhs.length ∧ p < q

theorem Outranks.trans {p q r : Nat} (h : g.Outranks p q) (h' : g.Outranks q r) :
    g.Outranks p r := by
  unfold Outranks at h h' ⊢
  omega

theorem Outranks.asymm {p q : Nat} (h : g.Outranks p q) : ¬g.Outranks q p := by
  unfold Outranks at h ⊢
  omega

/-- Of two different rules one outranks the other, and it is the one that is put first. -/
theorem outranks_of_precedes (hg : g.IsBuiltFrom first rest) {p q : Nat} (hne : p ≠ q) :
    (g.precedes p q = true → g.Outranks p q) ∧ (g.precedes p q = false → g.Outranks q p) := by
  unfold precedes Outranks
  dsimp only
  rw [hg.lengthOf_eq, hg.lengthOf_eq]
  constructor
  · intro h
    simp only [Bool.or_eq_true, Bool.and_eq_true, decide_eq_true_eq, beq_iff_eq] at h
    omega
  · intro h
    simp only [Bool.or_eq_false_iff, Bool.and_eq_false_iff, decide_eq_false_iff_not,
      beq_eq_false_iff_ne] at h
    omega

/-- A rule is put where it belongs. -/
theorem pairwise_rank (hg : g.IsBuiltFrom first rest) {p : Nat} {indices : List Nat}
    (hp : p ∉ indices) (h : indices.Pairwise g.Outranks) :
    (g.rank p indices).Pairwise g.Outranks := by
  induction indices with
  | nil => exact List.pairwise_singleton _ _
  | cons q others ih =>
    obtain ⟨hq, hothers⟩ := List.pairwise_cons.1 h
    have hne : p ≠ q := List.ne_of_not_mem_cons hp
    have hothers' : p ∉ others := List.not_mem_of_not_mem_cons hp
    unfold rank
    cases hprecedes : g.precedes p q with
    | true =>
      -- it comes first, and outranks what comes behind the next one too
      have hpq : g.Outranks p q := (outranks_of_precedes hg hne).1 hprecedes
      refine List.pairwise_cons.2 ⟨fun r hr => ?_, h⟩
      rcases List.mem_cons.1 hr with rfl | hr
      · exact hpq
      · exact hpq.trans (hq r hr)
    | false =>
      -- it is put somewhere behind the next one
      have hqp : g.Outranks q p := (outranks_of_precedes hg hne).2 hprecedes
      refine List.pairwise_cons.2 ⟨fun r hr => ?_, ih hothers' hothers⟩
      rcases List.mem_cons.1 ((rank_perm p others).mem_iff.1 hr) with rfl | hr
      · exact hqp
      · exact hq r hr

/-- Reductions are put in order of their ranks. -/
theorem pairwise_ranked (hg : g.IsBuiltFrom first rest) {indices : List Nat}
    (hnodup : indices.Nodup) : (g.ranked indices).Pairwise g.Outranks := by
  induction indices with
  | nil => exact .nil
  | cons p others ih =>
    obtain ⟨hp, hothers⟩ := List.nodup_cons.1 hnodup
    exact pairwise_rank hg (fun h => hp ((mem_ranked others p).1 h)) (ih hothers)

/-- The order does not depend on how the rules are listed. -/
theorem ranked_eq_of_perm (hg : g.IsBuiltFrom first rest) {indices stored : List Nat}
    (hnodup : indices.Nodup) (h : stored.Perm indices) : g.ranked stored = g.ranked indices := by
  have hperm : (g.ranked stored).Perm (g.ranked indices) :=
    (ranked_perm stored).trans (h.trans (ranked_perm indices).symm)
  -- two sorted lists of the same members are the same, as no two members come at the same place
  have hasymm : ∀ p q, p ∈ g.ranked stored → q ∈ g.ranked indices → g.Outranks p q →
      g.Outranks q p → p = q := fun _ _ _ _ hpq hqp => absurd hqp hpq.asymm
  exact hperm.eq_of_pairwise hasymm (pairwise_ranked hg (h.nodup_iff.2 hnodup))
    (pairwise_ranked hg hnodup)

/-! ## Choosing -/

/-- A choice is made by a search in the order of ranks. -/
theorem run_select (g : Grammar) (stored : List Nat) (state : Nat) (terminal : String)
    (s : Session) :
    (g.select (stored.map .reduce) state terminal).run s =
      ⟨((g.firstApplicable (g.ranked stored)).run s).events,
        ((g.firstApplicable (g.ranked stored)).run s).state,
        match ((g.firstApplicable (g.ranked stored)).run s).result with
        | .ok (some p) => .ok p
        -- none of the reductions applies
        | .ok none => .error (.failed (.noSatisfiedReduce state terminal))
        | .error e => .error e⟩ := by
  unfold select
  rw [reductions?_map_reduce]
  dsimp only
  rw [Task.run_bind]
  generalize (g.firstApplicable (g.ranked stored)).run s = search
  obtain ⟨events, s', result⟩ := search
  match result with
  | .ok (some p) =>
    show Completed.mk (events ++ []) _ _ = _
    rw [List.append_nil]
    rfl
  | .ok none =>
    show Completed.mk (events ++ []) _ _ = _
    rw [List.append_nil]
    rfl
  | .error e => rfl

/-- That none is found is the only error that the choice adds to those of the search. -/
theorem result_select (g : Grammar) (stored : List Nat) (state : Nat) (terminal : String)
    (s : Session) :
    (∀ p, ((g.select (stored.map .reduce) state terminal).run s).result = .ok p ↔
        ((g.firstApplicable (g.ranked stored)).run s).result = .ok (some p)) ∧
      ∀ e, ((g.select (stored.map .reduce) state terminal).run s).result = .error e ↔
        ((g.firstApplicable (g.ranked stored)).run s).result = .error e ∨
          ((g.firstApplicable (g.ranked stored)).run s).result = .ok none ∧
            e = .failed (.noSatisfiedReduce state terminal) := by
  rw [run_select]
  constructor
  · intro p
    match ((g.firstApplicable (g.ranked stored)).run s).result with
    | .ok (some q) => exact ⟨fun h => by cases h; rfl, fun h => by cases h; rfl⟩
    | .ok none => exact ⟨fun h => (nomatch h), fun h => (nomatch Except.ok.inj h)⟩
    | .error e => exact ⟨fun h => (nomatch h), fun h => (nomatch h)⟩
  · intro e
    match ((g.firstApplicable (g.ranked stored)).run s).result with
    | .ok (some q) =>
      exact ⟨fun h => (nomatch h), fun h => h.elim (fun h => (nomatch h))
        fun h => (nomatch Except.ok.inj h.1)⟩
    | .ok none =>
      -- that no reduction applies is an error of its own
      refine ⟨fun h => .inr ⟨rfl, (Except.error.inj h).symm⟩, fun h => ?_⟩
      rcases h with h | ⟨-, rfl⟩
      · exact nomatch h
      · rfl
    | .error e' =>
      refine ⟨fun h => .inl (by cases h; rfl), fun h => ?_⟩
      rcases h with h | ⟨h, -⟩
      · cases h
        rfl
      · exact nomatch h

/-- In a built grammar, whatever different rules a cell has and however it lists them, they are
considered longer ones first, and of equally long ones those that are declared first.  If all of them
can be bound to the stack, the first one is chosen that has no guard or whose guard holds.  The choice
fails because no guard holds, which is to say that all rules have guards and none of these holds, or
with the error of a guard that is tested before any rule is chosen.

The guards that are tested are those of the rules up to the one that settles the matter.  All that they
leave behind is that they have been counted, the one that fails as well, and the registers that they
have taken. -/
theorem select_takes_first_applicable {rules : List Rule} {g : Grammar}
    (h : (build rules).result = .ok g) {indices : List Nat} (hnodup : indices.Nodup) {s : Session}
    (hbound : ∀ p ∈ indices, s.CanBind (g.rule p)) (state : Nat) (terminal : String) :
    ∃ order done, order.Perm indices ∧ order.Pairwise g.Outranks ∧
      (∀ stored : List Nat, stored.Perm indices →
        (g.select (stored.map .reduce) state terminal).run s = done) ∧
      (∀ p, done.result = .ok p ↔ ∃ before, g.Reaches s order before p (.ok true)) ∧
      (done.result = .error (.failed (.noSatisfiedReduce state terminal)) ↔
        g.AllRejected s order) ∧
      (∀ e, e ≠ .failed (.noSatisfiedReduce state terminal) →
        (done.result = .error e ↔ ∃ before p, g.Reaches s order before p (.error e))) ∧
      ∃ considered,
        (g.AllRejected s order ∧ considered = order ∨
          ∃ before p result, g.Reaches s order before p result ∧ result ≠ .ok false ∧
            considered = before ++ [p]) ∧
        done.events = g.eventsOfGuards s considered ∧ done.state = g.afterGuards s considered ∧
        s.HasTested done.state (considered.filter fun p => (g.rule p).isGuarded).length := by
  obtain ⟨first, rest, rfl, hg⟩ := isBuiltFrom_of_build h
  have hbound' : ∀ p ∈ g.ranked indices, s.CanBind (g.rule p) :=
    fun p hp => hbound p ((mem_ranked indices p).1 hp)
  obtain ⟨hchosen, hnone, hfailed⟩ := result_firstApplicable hbound'
  obtain ⟨hok, herror⟩ := g.result_select indices state terminal s
  have hends := g.allRejected_or_reaches s (g.ranked indices)
  refine ⟨g.ranked indices, (g.select (indices.map .reduce) state terminal).run s,
    ranked_perm indices, pairwise_ranked hg hnodup, fun stored hstored => ?_,
    fun p => (hok p).trans (hchosen p), ?_, fun e he => ?_, ?_⟩
  · rw [run_select, run_select, ranked_eq_of_perm hg hnodup hstored]
  · rw [herror, ← hnone]
    constructor
    · rintro (hfails | ⟨hrejected, -⟩)
      · -- what a guard fails with is not that no guard holds
        obtain ⟨before, p, hreaches⟩ := (hfailed _).1 hfails
        exact nomatch Session.blamesReference_of_guardResult hreaches.result
      · exact hrejected
    · exact fun hrejected => .inr ⟨hrejected, rfl⟩
  · rw [herror, ← hfailed e]
    exact or_iff_left fun h => he h.2
  · rcases hends with hall | ⟨before, p, result, hreaches, hne⟩
    · refine ⟨_, .inl ⟨hall, rfl⟩, ?_⟩
      rw [run_select, run_firstApplicable_of_allRejected hbound' hall]
      exact ⟨rfl, rfl, g.hasTested_afterGuards s _⟩
    · refine ⟨_, .inr ⟨before, p, result, hreaches, hne, rfl⟩, ?_⟩
      rw [run_select, run_firstApplicable_of_reaches hbound' hreaches hne]
      exact ⟨rfl, rfl, g.hasTested_afterGuards s _⟩

/-- When the outer pair of brackets is to be put together, the rule for the innermost pair is considered
first, but its guard does not hold. -/
theorem select_outer_pair : ∃ g s, (build nested).result = .ok g ∧
    s = (g.parse (.ofList (twoPairs.map .ok)) {} 6).session ∧
    (g.select ([1, 2].map .reduce) 0 endName).run s =
      (g.select ([2, 1].map .reduce) 0 endName).run s ∧
    ((g.select ([2, 1].map .reduce) 0 endName).run s).result = .ok 2 ∧
    ∃ order before, order.Perm [2, 1] ∧ order.Pairwise g.Outranks ∧
      g.Reaches s order before 2 (.ok true) := by
  have hrun : (build nested).result.map (fun g =>
      ([2, 1].map fun p => ((g.parse (.ofList (twoPairs.map .ok)) {} 6).session.scope
          (g.rule p)).toOption.isSome,
        ((g.select ([2, 1].map .reduce) 0 endName).run
          (g.parse (.ofList (twoPairs.map .ok)) {} 6).session).result)) =
        .ok ([true, true], .ok 2) := by
    decide +kernel
  obtain ⟨g, hg, hs⟩ := exists_of_map_eq_ok hrun
  obtain ⟨hscopes, hresult⟩ := Prod.mk.inj hs
  -- both rules can be bound there
  have hbound : ∀ p ∈ [2, 1],
      (g.parse (.ofList (twoPairs.map .ok)) {} 6).session.CanBind (g.rule p) := by
    intro p hp
    have hsome := List.map_eq_map_iff.1 (hscopes.trans (by rfl : _ = [2, 1].map fun _ => true)) p hp
    unfold Session.CanBind
    cases hscope : (g.parse (.ofList (twoPairs.map .ok)) {} 6).session.scope (g.rule p) with
    | ok c => exact ⟨c, rfl⟩
    | error e =>
      rw [hscope] at hsome
      exact nomatch hsome
  obtain ⟨order, done, hperm, hpairwise, hdone, hchosen, -⟩ :=
    select_takes_first_applicable hg (by decide) hbound 0 endName
  have hboth := (hdone [1, 2] (.swap 2 1 [])).trans (hdone [2, 1] (.refl _)).symm
  obtain ⟨before, hreaches⟩ := (hchosen 2).1 (hdone [2, 1] (.refl _) ▸ hresult)
  exact ⟨g, _, hg, rfl, hboth, hresult, order, before, hperm, hpairwise, hreaches⟩

end Grammar

end GuardedGrammar
