/-
  The counts of a parse.

  A shift is counted where its terminal is pushed, the next terminal where the source is asked, a
  reduction where its left-hand side is pushed, and a test of a guard is no reduction at all.  The counts
  agree nevertheless, with one another and with the stack (`Balances`): a shift and a reduction push one
  symbol each, and a reduction takes as many off the stack as its rule has on the right-hand side.  If it
  has none there, the stack grows although nothing has been shifted.

  This holds whenever there is a terminal to be dealt with, by induction over traces, and it holds of a
  parse that has succeeded, where the bottom and one symbol are left on the stack.

  A parse says that a terminal is unknown only when it looks up the one that comes next: neither guards
  nor actions say so (`Spares`), nor does a cell, unless the source has said so itself
  (`blamesTerminal_parse`).  As many terminals as the error tells have been shifted before.

  Main statement: `parse_accounts`.
-/
import GuardedGrammar.Proofs.Asking
import GuardedGrammar.Proofs.Effects
import Mathlib.Algebra.Order.Ring.Nat

namespace GuardedGrammar

/-- How many symbols the right-hand sides of rules have, all in all. -/
def symbolsReplaced (rules : List Rule) : Nat := (rules.map (·.rhs.length)).sum

/-- A reduction adds the length of its right-hand side, which is what it takes off the stack. -/
theorem symbolsReplaced_concat (rules : List Rule) (r : Rule) :
    symbolsReplaced (rules ++ [r]) = symbolsReplaced rules + r.rhs.length := by
  unfold symbolsReplaced
  rw [List.map_append, List.sum_append]
  rfl

/-- What has been counted agrees with the stack and with what has happened. -/
structure Configuration.Balances (c : Configuration) : Prop where
  /-- What has been pushed and not been replaced lies on the stack, on top of the bottom. -/
  height : c.session.stack.length + symbolsReplaced (reducedRules c.events) =
    1 + c.session.stats.shifts + c.session.stats.reductions
  shifts : c.session.stats.shifts = (shiftedNames c.events).length
  reductions : c.session.stats.reductions = (reducedRules c.events).length
  terminals : c.session.stats.terminals = c.session.stats.shifts + 1

/-! ## Errors that something never ends with -/

/-- A task that does not fail with the error, whatever else it may fail with. -/
def Task.Spares {σ ε α : Type} (e : ε) (t : Task σ ε α) : Prop := ∀ s, (t.run s).result ≠ .error e

section

variable {σ ε α β : Type} {e : ε} {t : Task σ ε α} {f : α → Task σ ε β}

/-! What always succeeds does not fail at all, and what fails with another error does not fail with
this one. -/

theorem Task.spares_of_ok (h : ∀ s, ∃ a, (t.run s).result = .ok a) : Spares e t := by
  intro s he
  obtain ⟨a, ha⟩ := h s
  rw [ha] at he
  exact nomatch he

theorem Task.spares_pure (e : ε) (a : α) : Spares e (pure a : Task σ ε α) :=
  spares_of_ok fun _ => ⟨a, rfl⟩

theorem Task.spares_fail {e' : ε} (h : e' ≠ e) : Spares e (Task.fail e' : Task σ ε α) :=
  fun _ he => h (Except.error.inj he)

/-- One thing after the other spares an error if both do, whatever the first has given to the
second. -/
theorem Task.Spares.bind (ht : Spares e t) (hf : ∀ a, Spares e (f a)) : Spares e (t >>= f) := by
  intro s
  rw [Task.run_bind]
  cases hr : (t.run s).result with
  | error e' =>
    intro he
    have he' : e' = e := Except.error.inj he
    exact ht s (he' ▸ hr)
  | ok a => exact hf a _

end

/-- Guards and actions fail with an attribute, a target or the output. -/
theorem Scope.composes_spares (name : String) (index : Nat) :
    Composes (Task.Spares (.unknownTerminal name index)) where
  nothing := Task.spares_pure _
  bind := Task.Spares.bind
  -- the only errors of a scope are about references and about output
  evaluate _ _ h := nomatch blamesReference_of_evaluate h
  emit line s := by
    rw [run_emit]
    split <;> exact fun h => nomatch h
  assignTo ref value s := by
    unfold assignTo
    rw [Task.run_get_bind]
    cases s.rule.slot? ref.target with
    | none => exact fun h => nomatch h
    | some slot => exact fun h => nomatch h
  lhs _ h := nomatch h

namespace Grammar

variable {g : Grammar} {first : Rule} {rest : List Rule} {source : Source} {output : Sink}
  {ts : List Terminal} {rules : List Rule} {s s' : Session} {t : Terminal}

section

variable (name : String) (index : Nat)

/-- To bind a rule fails only if the tables are wrong. -/
theorem spares_inScope {α : Type} {task : Task Scope ParseError α}
    (ht : task.Spares (.unknownTerminal name index)) (rule : Rule) :
    (Session.inScope rule task).Spares (.unknownTerminal name index) := by
  intro s
  rw [Session.run_inScope]
  -- the scope is set up from the stack, and what can go wrong there is about the tables
  cases hscope : s.scope rule with
  | ok c => exact ht c
  | error e =>
    intro he
    obtain rfl : e = .unknownTerminal name index := Except.error.inj he
    unfold Session.scope at hscope
    split at hscope
    · exact nomatch hscope
    · cases hbind : Scope.bind rule (s.stack.take rule.rhs.length).reverse s.registers s.output with
      | error => rw [hbind] at hscope; exact nomatch hscope
      | ok => rw [hbind] at hscope; exact nomatch hscope

/-- Neither choosing a reduction nor carrying it out says that a terminal is unknown. -/
theorem composes_spares : Session.Composes (Task.Spares (.unknownTerminal name index)) where
  nothing := Task.spares_pure _
  fail _ he := Task.spares_fail (he name index)
  bind := Task.Spares.bind
  get_bind hf _ s := hf s s
  rearrange _ := Task.spares_of_ok fun _ => ⟨(), rfl⟩
  guard rule c := spares_inScope name index ((Scope.composes_spares name index).test c) rule
  action rule := spares_inScope name index ((Scope.composes_spares name index).act rule) rule
  guardTested _ _ _ := Task.spares_of_ok fun _ => ⟨(), rfl⟩
  reduced _ _ := Task.spares_of_ok fun _ => ⟨(), rfl⟩
  wentTo _ := Task.spares_of_ok fun _ => ⟨(), rfl⟩
  accepted := Task.spares_of_ok fun _ => ⟨(), rfl⟩

end

/-- A step says that its terminal is unknown if it is, or it shifts and passes on what the source says. -/
theorem step_unknown_cases {name : String} {index : Nat}
    (h : ((g.step source t).run s).result = .error (.unknownTerminal name index)) :
    (g.terminalId? t.name = none ∧ name = t.name ∧ index = s.stats.terminals - 1 ∧
        ((g.step source t).run s).state = s) ∨
      ((source s.stats.terminals).item = some (.error (.unknownTerminal name index)) ∧
        ((g.step source t).run s).state.stats.shifts = s.stats.shifts + 1) := by
  unfold step at h ⊢
  rw [Task.run_get_bind, Task.run_note_bind] at h ⊢
  cases hid : g.terminalId? t.name with
  | none =>
    rw [hid] at h
    obtain ⟨rfl, rfl⟩ := ParseError.unknownTerminal.inj (Except.error.inj h)
    exact .inl ⟨rfl, rfl, rfl, rfl⟩
  | some id =>
    rw [hid] at h
    dsimp only at h ⊢
    -- of what a cell can say, only a shift asks the source
    rcases (composes_spares name index).shift_or_carryOut g source t (g.cell s.state id) s.state with
      ⟨j, hcell⟩ | hspares
    · have hask : (g.carryOut source [.shift j] s.state t).run s =
          ((ask source).run (s.shifted j t)).behind [.shifted j] := rfl
      have hasked : (s.shifted j t).stats.terminals = s.stats.terminals := rfl
      rw [hcell, hask, run_ask, hasked] at h
      rw [hcell, hask, run_ask, hasked]
      cases hitem : (source s.stats.terminals).item with
      | none => rw [hitem] at h; exact nomatch h
      | some item =>
        rw [hitem] at h
        cases item with
        | ok t' => exact nomatch h
        | error e =>
          obtain rfl : e = .unknownTerminal name index := Except.error.inj h
          exact .inr ⟨rfl, rfl⟩
    · exact absurd h (hspares s)

/-- A parse ends with an error that a step ends with. -/
theorem result_of_statusOf {s : Session} {result : Except ParseError Progress} {e : ParseError}
    (h : Configuration.statusOf s result = .ended (.error e)) : result = .error e := by
  match result with
  | .ok (.reading _) => exact nomatch h
  | .ok .accepted => exact nomatch h
  | .error e' => exact congrArg Except.error (Except.error.inj (Status.ended.inj h))

/-- If the parse has ended because a terminal is unknown, then its error tells how many terminals have
been shifted before the one that the source has given last, or the source itself has said so. -/
def BlamesTerminal (g : Grammar) (source : Source) (c : Configuration) : Prop :=
  ∀ name index, c.status = .ended (.error (.unknownTerminal name index)) →
    (index = c.session.stats.shifts ∧ g.terminalId? name = none ∧
        ∃ t, t.name = name ∧ (source index).item = some (.ok t)) ∨
      (source c.session.stats.shifts).item = some (.error (.unknownTerminal name index))

/-- Nothing has been shifted before the first question, so only the source can have blamed a
terminal. -/
theorem blamesTerminal_initial (g : Grammar) (source : Source) (output : Sink) :
    g.BlamesTerminal source (.initial source output) := by
  intro name index h
  right
  -- the first item is there or not, and if it is an error the parse has ended with it
  obtain ⟨-, ⟨-, -, hstatus⟩ | ⟨item, hitem, hsession, hstatus⟩⟩ :=
    Configuration.initial_cases source output
  · exact nomatch hstatus.symm.trans h
  · rw [hstatus] at h
    rw [hsession]
    cases item with
    | ok t => exact nomatch h
    | error e =>
      obtain rfl : e = .unknownTerminal name index := Except.error.inj (Status.ended.inj h)
      exact hitem

/-- A step that blames a terminal has found it missing itself, or has passed on what the source says
after a shift. -/
theorem BlamesTerminal.next {c : Configuration} (hasked : HasAsked source c)
    (h : g.BlamesTerminal source c) : g.BlamesTerminal source (c.next g source) := by
  cases hread : c.status with
  | ended r => rwa [Configuration.next_of_ended g source c r hread]
  | reading t =>
    intro name index hended
    obtain ⟨hitem, hterminals⟩ := hasked.reading t hread
    rw [Configuration.next_of_reading hread] at hended ⊢
    rw [Configuration.status_after] at hended
    have hresult := result_of_statusOf hended
    have hsession : ((Configuration.after c.log ((g.step source t).run c.session))).session =
        ((g.step source t).run c.session).state := rfl
    rw [hsession]
    -- either the name is none of the grammar, and nothing has changed, or one more has been shifted
    rcases step_unknown_cases hresult with ⟨hid, rfl, hindex, hstate⟩ | ⟨hsource, hshifts⟩
    · rw [hterminals] at hindex
      obtain rfl : index = c.session.stats.shifts := hindex
      rw [hstate]
      exact .inl ⟨rfl, hid, t, rfl, hitem⟩
    · rw [hshifts, ← hterminals]
      exact .inr hsource

/-- At every point of a parse, a terminal is blamed with the number of terminals shifted before
it. -/
theorem blamesTerminal_parse (g : Grammar) (source : Source) (output : Sink) (n : Nat) :
    g.BlamesTerminal source (g.parse source output n) := by
  induction n with
  | zero => exact blamesTerminal_initial g source output
  | succ n ih =>
    rw [parse_succ]
    exact ih.next (hasAsked_parse g source output n)

/-- A terminal that is not one of the grammar is found out when it is to be dealt with. -/
theorem next_of_terminalId?_eq_none {c : Configuration} (hasked : HasAsked source c)
    (hread : c.status = .reading t) (hid : g.terminalId? t.name = none) :
    (c.next g source).status = .ended (.error (.unknownTerminal t.name c.session.stats.shifts)) ∧
      (c.next g source).session = c.session := by
  obtain ⟨-, hterminals⟩ := hasked.reading t hread
  have hrun : (g.step source t).run c.session = ⟨[.stepBegun c.session.stack t.name], c.session,
      .error (.unknownTerminal t.name (c.session.stats.terminals - 1))⟩ := by
    unfold step
    rw [Task.run_get_bind, Task.run_note_bind, hid]
    rfl
  rw [Configuration.next_of_reading hread, hrun, hterminals]
  exact ⟨rfl, rfl⟩

/-! ## What a trace has pushed and taken off -/

/-- A reduction pushes one symbol for those of a right-hand side. -/
theorem Effect.height_of_reduced {r : Rule}
    (h : g.Effect source s t [r] s' (.ok (.reading t))) :
    s'.stack.length + r.rhs.length = s.stack.length + 1 ∧
      s'.stats.reductions = s.stats.reductions + 1 := by
  cases h with
  | @reduces p j s₀ s₁ scope attributes events _ hrule hbefore _ hafter =>
    have htested := hbefore.trans hafter
    have hdeep := hrule.length_lt
    constructor
    · show (s₁.stack.drop (g.rule p).rhs.length).length + 1 + (g.rule p).rhs.length = _
      rw [htested.stack, List.length_drop]
      omega
    · show s₁.stats.reductions + 1 = _
      rw [htested.stats]

/-- By induction on the trace: a shift raises both sides by one, and a reduction pays for what it
takes off the stack with the symbols that it replaces. -/
theorem Trace.height (h : g.Trace source output ts rules s t) :
    s.stack.length + symbolsReplaced rules = 1 + s.stats.shifts + s.stats.reductions := by
  induction h with
  | start => rfl
  | @shift ts rules s t t' j _ _ _ ih =>
    show s.stack.length + 1 + symbolsReplaced rules = 1 + (s.stats.shifts + 1) + s.stats.reductions
    -- one symbol more on the stack, one shift more
    omega
  | @reduce ts rules s s' t r _ heffect ih =>
    -- what is taken off is what `symbolsReplaced` grows by
    obtain ⟨hheight, hreductions⟩ := heffect.height_of_reduced
    obtain ⟨-, hshifts⟩ := heffect.stats_of_reduced
    rw [symbolsReplaced_concat, hshifts, hreductions]
    omega

/-- A reduction is counted where its rule is noted, and nothing else is counted as one. -/
theorem Trace.reductions (h : g.Trace source output ts rules s t) :
    s.stats.reductions = rules.length := by
  induction h with
  | start => rfl
  | shift _ _ _ ih => exact ih
  | reduce _ heffect ih =>
    rw [heffect.height_of_reduced.2, ih, List.length_append]
    rfl

/-- Whatever a trace leads to, the counts agree. -/
theorem Trace.balances {c : Configuration} (hasked : HasAsked source c)
    (h : g.Trace source output ts (reducedRules c.events) c.session t) : c.Balances := by
  obtain ⟨ts', -, hlength, hnames⟩ := hasked.shifted
  obtain ⟨hshifts, hterminals⟩ := h.stats
  refine ⟨h.height, ?_, h.reductions, ?_⟩
  · rw [hnames, List.length_map, hlength]
  · rw [hterminals, hshifts]

/-! ## A whole parse -/

/-- Whenever a terminal is to be dealt with, the counts agree with the stack and with what has happened;
and they do when the parse has succeeded, where one symbol has been pushed more than all reductions have
replaced.  If the parse ends because a terminal is unknown, its error tells how many terminals have been
shifted before, unless it is an error of the source; and it does end so if a terminal is to be dealt with
that is none of the grammar. -/
theorem parse_accounts {rules : List Rule} {g : Grammar} (h : (build rules).result = .ok g)
    (source : Source) (output : Sink) (n : Nat) :
    (∀ t, (g.parse source output n).status = .reading t →
      (g.parse source output n).Balances ∧
        (g.terminalId? t.name = none → (g.parse source output (n + 1)).result? =
          some (.error (.unknownTerminal t.name (g.parse source output n).session.stats.shifts)))) ∧
      (∀ stats, (g.parse source output n).result? = some (.ok stats) →
        stats = (g.parse source output n).session.stats ∧ (g.parse source output n).Balances ∧
          stats.shifts + stats.reductions =
            1 + symbolsReplaced (reducedRules (g.parse source output n).events)) ∧
      ∀ name index,
        (g.parse source output n).result? = some (.error (.unknownTerminal name index)) →
          (index = (shiftedNames (g.parse source output n).events).length ∧
              g.terminalId? name = none ∧ ∃ t, t.name = name ∧ (source index).item = some (.ok t)) ∨
            (source (shiftedNames (g.parse source output n).events).length).item =
              some (.error (.unknownTerminal name index)) := by
  obtain ⟨first, rest, rfl, hg⟩ := isBuiltFrom_of_build h
  have hasked := hasAsked_parse g source output n
  refine ⟨fun t hread => ⟨?_, fun hid => ?_⟩, fun stats hok => ?_, fun name index hunknown => ?_⟩
  · -- while a terminal is to be dealt with, there is a trace to this point
    obtain ⟨ts, htrace⟩ := exists_trace_of_reading hg hread
    exact htrace.balances hasked
  · -- an unknown terminal is found out by the very next step
    rw [parse_succ]
    exact Configuration.result?_eq_some_iff.2 (next_of_terminalId?_eq_none hasked hread hid).1
  · -- a parse that has succeeded has the trace up to the last cell behind it
    obtain ⟨ts, e, rfl, htrace, -⟩ := exists_trace_of_ok hg hok
    have hheight := (keepsToTables_parse hg source output n).height _
      (Configuration.result?_eq_some_iff.1 hok)
    have hbalance := htrace.height
    refine ⟨rfl, htrace.balances hasked, ?_⟩
    omega
  · obtain ⟨ts, -, hlength, hnames⟩ := hasked.shifted
    have hshifts : (shiftedNames (g.parse source output n).events).length =
        (g.parse source output n).session.stats.shifts := by
      rw [hnames, List.length_map, hlength]
    rw [hshifts]
    exact blamesTerminal_parse g source output n name index
      (Configuration.result?_eq_some_iff.1 hunknown)

/-- Two round brackets, and one that is no bracket of `nested`. -/
def oddBracket : List Terminal := [{ name := "(" }, { name := "(" }, { name := "[" }]

/-- Four brackets are shifted and three rules reduced, one of which has nothing to replace; when that has
been done, there are four entries on the stack.  The odd bracket comes behind two that have been
shifted. -/
theorem parse_nested_accounts : ∃ g, (build nested).result = .ok g ∧
    (g.parse (.ofList (twoPairs.map .ok)) {} 3).session.stack.length = 4 ∧
    (g.parse (.ofList (twoPairs.map .ok)) {} 3).Balances ∧
    (∃ stats, (g.parse (.ofList (twoPairs.map .ok)) {} 8).result? = some (.ok stats) ∧
      stats.shifts = 4 ∧ stats.reductions = 3 ∧ stats.shifts + stats.reductions =
        1 + symbolsReplaced (reducedRules (g.parse (.ofList (twoPairs.map .ok)) {} 8).events)) ∧
    (g.parse (.ofList (oddBracket.map .ok)) {} 3).result? = some (.error (.unknownTerminal "[" 2)) ∧
    (shiftedNames (g.parse (.ofList (oddBracket.map .ok)) {} 3).events).length = 2 := by
  have hrun : (build nested).result.map (fun g =>
      ((g.parse (.ofList (twoPairs.map .ok)) {} 3).session.stack.length,
        [(g.parse (.ofList (twoPairs.map .ok)) {} 3).result?,
          (g.parse (.ofList (twoPairs.map .ok)) {} 8).result?,
          (g.parse (.ofList (oddBracket.map .ok)) {} 3).result?])) =
      .ok (4, [none, some (.ok { terminals := 5, shifts := 4, reductions := 3, guards := 2 }),
        some (.error (.unknownTerminal "[" 2))]) := by
    decide +kernel
  obtain ⟨g, hg, hvalues⟩ := exists_of_map_eq_ok hrun
  simp only [Prod.mk.injEq, List.cons.injEq, and_true] at hvalues
  obtain ⟨hheight, hgoes, hok, hunknown⟩ := hvalues
  have hreading := (parse_accounts hg (.ofList (twoPairs.map .ok)) {} 3).1
  have haccepted := (parse_accounts hg (.ofList (twoPairs.map .ok)) {} 8).2.1
  have hodd := (parse_accounts hg (.ofList (oddBracket.map .ok)) {} 3).2.2
  refine ⟨g, hg, hheight, ?_, ⟨_, hok, rfl, rfl, (haccepted _ hok).2.2⟩, hunknown, ?_⟩
  · cases hread : (g.parse (.ofList (twoPairs.map .ok)) {} 3).status with
    | reading t => exact (hreading t hread).1
    | ended r =>
      rw [Configuration.result?_eq_some_iff.2 hread] at hgoes
      exact nomatch hgoes
  · rcases hodd _ _ hunknown with ⟨hindex, -⟩ | hsource
    · exact hindex.symm
    · -- the list has terminals only, and no errors
      obtain ⟨_, -, herror⟩ := List.mem_map.1 (List.mem_of_getElem? hsource)
      exact nomatch herror

end Grammar

end GuardedGrammar
