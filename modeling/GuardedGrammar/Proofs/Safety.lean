/-
  A parse never contradicts its tables.

  The invariant is that the stack is a path through the automaton.  Each effect of a step preserves it
  (`Effect.isPath`), and none of them blames a table of its own accord (`Effect.blameless`); so the
  invariant holds throughout a parse (`keepsToTables_parse`), and the only inconsistencies that a parse
  ever ends with are those that its source has made up (`parse_keeps_to_tables`).
-/
import GuardedGrammar.Proofs.Steps

namespace GuardedGrammar

/-! ## Runs -/

namespace Configuration

variable {g : Grammar} {source : Source} {c : Configuration}

/-- What every step preserves holds throughout a run. -/
theorem run_induction {Inv : Configuration → Prop} (hstep : ∀ c, Inv c → Inv (next g source c))
    (n : Nat) (h : Inv c) : Inv (run g source n c) := by
  induction n generalizing c with
  | zero => exact h
  | succ n ih =>
    rw [run_succ]
    exact ih (hstep c h)

/-- A step of a parse that goes on leads to what the step of the grammar leaves. -/
theorem next_of_reading {t : Terminal} (h : c.status = .reading t) :
    next g source c = after c.log ((g.step source t).run c.session) := by
  unfold next
  rw [h]

/-- The status that a result leads to. -/
def statusOf (s : Session) : Except ParseError Grammar.Progress → Status
  | .ok (.reading t) => .reading t
  | .ok .accepted => .ended (.ok s.stats)
  | .error e => .ended (.error e)

/-- What a parse reports behind a task comes from the session and the result that the task
leaves. -/
theorem status_after (log : List Event)
    (done : Completed Session ParseError Grammar.Progress) :
    (after log done).status = statusOf done.state done.result := by
  obtain ⟨events, s, result⟩ := done
  match result with
  | .ok (.reading _) => rfl
  | .ok .accepted => rfl
  | .error _ => rfl

/-- A parse has a result exactly if it has ended with it. -/
theorem result?_eq_some_iff {r : Except ParseError Stats} :
    c.result? = some r ↔ c.status = .ended r := by
  unfold result?
  cases c.status with
  | reading t => exact ⟨fun h => (nomatch h), fun h => (nomatch h)⟩
  | ended r' => exact ⟨fun h => congrArg Status.ended (Option.some.inj h), fun h => by cases h; rfl⟩

/-- How a parse begins: by asking the source. -/
theorem initial_cases (source : Source) (output : Sink) :
    reducedRules (initial source output).events = [] ∧
      ((source 0).item = none ∧ (initial source output).session = .initial output ∧
          (initial source output).status = .ended (.error (.failed .endOfInput)) ∨
        ∃ item, (source 0).item = some item ∧
          (initial source output).session = (Session.initial output).answered ∧
          (initial source output).status =
            statusOf (initial source output).session (Grammar.Progress.reading <$> item)) := by
  unfold initial
  rw [Grammar.run_map, Grammar.run_pull]
  show reducedRules (List.reverse (_ ++ [])) = [] ∧ _
  cases hitem : (source 0).item with
  -- the source has nothing to say, which is a failure of the parse
  | none =>
    have hreply : (source (Session.initial output).stats.terminals).item = none := hitem
    rw [hreply]
    refine ⟨?_, .inl ⟨rfl, rfl, rfl⟩⟩
    rw [List.append_nil, List.reverse_reverse]
    exact Grammar.reducedRules_matched _
  | some item =>
    have hreply : (source (Session.initial output).stats.terminals).item = some item := hitem
    rw [hreply]
    refine ⟨?_, .inr ⟨item, rfl, rfl, ?_⟩⟩
    · rw [List.append_nil, List.reverse_reverse]
      exact Grammar.reducedRules_matched _
    · cases item <;> rfl

/-- What is left after a step on a path, by what the step has done. -/
theorem next_spec (source : Source) {first : Rule} {rest : List Rule}
    (hg : g.IsBuiltFrom first rest) (hpath : g.IsPath c.session.stack) {t : Terminal}
    (h : c.status = .reading t) :
    ∃ rules result, g.Effect source c.session t rules (next g source c).session result ∧
      (next g source c).status = statusOf (next g source c).session result ∧
      reducedRules (next g source c).events = reducedRules c.events ++ rules := by
  rw [next_of_reading h]
  refine ⟨_, _, Grammar.effect_step hg source hpath, status_after _ _, ?_⟩
  · unfold after events
    dsimp only
    rw [List.reverse_append, List.reverse_reverse, reducedRules_append]

end Configuration

namespace Grammar

variable {g : Grammar} {first : Rule} {rest : List Rule} {source : Source}
  {s s' : Session} {t : Terminal} {rules : List Rule} {result : Except ParseError Progress}

/-! ## One step -/

/-- Every effect leaves a path. -/
theorem Effect.isPath (h : g.Effect source s t rules s' result) (hpath : g.IsPath s.stack) :
    g.IsPath s'.stack := by
  cases h with
  | unknown => exact hpath
  | blocked => exact hpath
  | accepts => exact hpath
  | exhausts hcell => exact hpath.push (.inr hcell)
  | shifts hcell => exact hpath.push (.inr hcell)
  | refuses _ _ hrest => exact hrest
  | @reduces p j s₀ s₁ scope _ _ _ hrule hbefore _ hafter _ hgoto =>
    have hstack : s₁.stack = s.stack := (hbefore.trans hafter).stack
    show g.IsPath (_ :: s₁.stack.drop (g.rule p).rhs.length)
    rw [hstack]
    exact (hpath.drop hrule.length_lt).push (.inl hgoto)

/-- An inconsistency is the answer of the source. -/
theorem Effect.blameless {what : Inconsistency}
    (h : g.Effect source s t rules s' (.error (.inconsistent what))) :
    s'.stats.terminals = s.stats.terminals + 1 ∧
      (source s.stats.terminals).item = some (.error (.inconsistent what)) := by
  generalize hr : (Except.error (.inconsistent what) : Except ParseError Progress) = r at h
  cases h with
  | unknown => exact nomatch hr
  | blocked => exact nomatch hr
  | accepts => exact nomatch hr
  | exhausts => exact nomatch hr
  | @shifts _ item _ hreply =>
    refine ⟨rfl, ?_⟩
    cases item with
    | ok t => exact nomatch hr
    | error e =>
      obtain rfl := Except.error.inj hr
      exact hreply
  -- an action that fails is not inconsistent
  | refuses _ _ _ herror _ => exact absurd (Except.error.inj hr).symm (herror what)
  | reduces => exact nomatch hr

/-- A parse is accepted with one symbol on the stack, which the step leaves there. -/
theorem Effect.height_of_accepted (h : g.Effect source s t rules s' (.ok .accepted)) :
    s'.stack.length = 2 := by
  generalize hr : (Except.ok Progress.accepted : Except ParseError Progress) = r at h
  cases h with
  | accepts _ hheight => exact hheight
  | shifts => rename_i item _ _; cases item <;> exact nomatch hr
  | _ => exact nomatch hr

/-! ## A whole parse -/

/-- Each step begins where the one before it ends. -/
theorem parse_succ (g : Grammar) (source : Source) (output : Sink) (n : Nat) :
    g.parse source output (n + 1) = (g.parse source output n).next g source := by
  unfold parse
  rw [Configuration.run_add]
  exact Configuration.run_succ g source 0 _

/-- Before the first step nothing has been shifted, reduced or written. -/
theorem parse_zero (g : Grammar) (source : Source) (output : Sink) :
    (g.parse source output 0).session.stats.shifts = 0 ∧
      (g.parse source output 0).session.stats.reductions = 0 ∧
      (g.parse source output 0).session.output = output := by
  have hinitial : g.parse source output 0 = .initial source output := rfl
  rw [hinitial]
  obtain ⟨-, ⟨-, hsession, -⟩ | ⟨item, -, hsession, -⟩⟩ :=
    Configuration.initial_cases source output
  · rw [hsession]
    exact ⟨rfl, rfl, rfl⟩
  · rw [hsession]
    exact ⟨rfl, rfl, rfl⟩

/-- A parse that has ended does not go on. -/
theorem parse_of_ended {output : Sink} {m n : Nat} {r : Except ParseError Stats}
    (h : (g.parse source output m).status = .ended r) (hle : m ≤ n) :
    g.parse source output n = g.parse source output m := by
  obtain ⟨k, rfl⟩ := Nat.exists_eq_add_of_le hle
  unfold parse at h ⊢
  rw [Configuration.run_add, Configuration.run_of_ended _ _ _ _ r h]

/-- The stack is a path; an inconsistency comes from the source, in its last answer; and a parse that
has succeeded has put everything together to one symbol. -/
structure KeepsToTables (g : Grammar) (source : Source) (c : Configuration) : Prop where
  path : g.IsPath c.session.stack
  blameless : ∀ what, c.status = .ended (.error (.inconsistent what)) →
    ∃ i, i + 1 = c.session.stats.terminals ∧
      (source i).item = some (.error (.inconsistent what))
  height : ∀ stats, c.status = .ended (.ok stats) → c.session.stack.length = 2

/-- At its start a parse has the bottom of the stack only. -/
theorem keepsToTables_initial (g : Grammar) (source : Source) (output : Sink) :
    g.KeepsToTables source (.initial source output) := by
  obtain ⟨-, ⟨-, hsession, hstatus⟩ | ⟨item, hitem, hsession, hstatus⟩⟩ :=
    Configuration.initial_cases source output
  · refine ⟨?_, fun what h => ?_, fun stats h => ?_⟩
    · rw [hsession]
      exact .bottom
    · -- the parse has ended with another failure
      exact nomatch hstatus.symm.trans h
    · exact nomatch hstatus.symm.trans h
  · refine ⟨?_, fun what h => ?_, fun stats h => ?_⟩
    · rw [hsession]
      exact .bottom
    · rw [hstatus] at h
      rw [hsession]
      cases item with
      | ok t => exact nomatch h
      | error e =>
        injection h with h
        injection h with h
        exact ⟨0, rfl, h ▸ hitem⟩
    · rw [hstatus] at h
      cases item <;> exact nomatch h

/-- A step of a parse keeps to the tables. -/
theorem KeepsToTables.next (hg : g.IsBuiltFrom first rest) {c : Configuration}
    (h : g.KeepsToTables source c) : g.KeepsToTables source (c.next g source) := by
  cases hread : c.status with
  | ended r => rwa [Configuration.next_of_ended g source c r hread]
  | reading t =>
    obtain ⟨rules, result, heffect, hstatus, -⟩ := Configuration.next_spec source hg h.path hread
    refine ⟨heffect.isPath h.path, fun what hended => ?_, fun stats hended => ?_⟩
    · rw [hstatus] at hended
      match result with
      | .ok (.reading _) => exact nomatch hended
      | .ok .accepted => exact nomatch hended
      | .error e =>
        injection hended with hended
        injection hended with hended
        subst hended
        -- the only inconsistency there is comes from the source
        obtain ⟨hterminals, hitem⟩ := heffect.blameless
        exact ⟨_, hterminals.symm, hitem⟩
    · rw [hstatus] at hended
      match result with
      | .ok (.reading _) => exact nomatch hended
      | .ok .accepted => exact heffect.height_of_accepted
      | .error _ => exact nomatch hended

/-- A parse keeps to the tables at every step. -/
theorem keepsToTables_parse (hg : g.IsBuiltFrom first rest) (source : Source) (output : Sink)
    (n : Nat) : g.KeepsToTables source (g.parse source output n) :=
  Configuration.run_induction (fun _ h => h.next hg) n (keepsToTables_initial g source output)

/-- At every step of a parse, whatever the source gives and wherever the output goes, the stack is a
path through the automaton.  An inconsistency that the parse ends with is the last answer of the source;
and a cell accepts only when the bottom and one symbol are on the stack. -/
theorem parse_keeps_to_tables {rules : List Rule} {g : Grammar}
    (h : (build rules).result = .ok g) (source : Source) (output : Sink) (n : Nat) :
    g.IsPath (g.parse source output n).session.stack ∧
      (∀ what, (g.parse source output n).result? = some (.error (.inconsistent what)) →
        ∃ i, i + 1 = (g.parse source output n).session.stats.terminals ∧
          (source i).item = some (.error (.inconsistent what))) ∧
      (∀ t, .accept ∈ g.actions (g.parse source output n).session.state t →
        (g.parse source output n).session.stack.length = 2) ∧
      ∀ stats, (g.parse source output n).result? = some (.ok stats) →
        (g.parse source output n).session.stack.length = 2 := by
  obtain ⟨first, rest, rfl, hg⟩ := isBuiltFrom_of_build h
  obtain ⟨hpath, hblameless, hheight⟩ := keepsToTables_parse hg source output n
  refine ⟨hpath, fun what hr => ?_, fun t ha => ?_, fun stats hr => ?_⟩
  · exact hblameless what (Configuration.result?_eq_some_iff.1 hr)
  · obtain ⟨-, entry, hstack, -⟩ := hpath.of_accept_mem_actions hg ha
    exact congrArg List.length hstack
  · exact hheight stats (Configuration.result?_eq_some_iff.1 hr)

/-! ## Nested brackets -/

/-- Brackets that enclose brackets. Two rules put a pair together; the one for the innermost pair has a
guard. -/
def nested : List Rule :=
  [ { lhs := ⟨"S", some 0⟩
      rhs := [⟨"(", none⟩, ⟨"S", some 1⟩, ⟨")", none⟩]
      condition := some ⟨.read ⟨.numbered 1, "kind"⟩, .literal "empty"⟩
      action := some [.emit [.literal "inner"], .assign ⟨.numbered 0, "kind"⟩ (.literal "pair")] },
    { lhs := ⟨"S", some 0⟩
      rhs := [⟨"(", none⟩, ⟨"S", some 1⟩, ⟨")", none⟩]
      action := some [.emit [.literal "outer"], .assign ⟨.numbered 0, "kind"⟩ (.literal "pair")] },
    { lhs := ⟨"S", none⟩
      rhs := []
      action := some [.assign ⟨.named "S", "kind"⟩ (.literal "empty")] } ]

/-- Two pairs of brackets, one in the other. -/
def twoPairs : List Terminal :=
  [{ name := "(" }, { name := "(" }, { name := ")" }, { name := ")" }, { name := endName }]

/-- Before the outer pair is put together, its brackets and the inner pair are on the stack. -/
theorem parse_nested_keeps_to_tables : ∃ g, (build nested).result = .ok g ∧
    (g.parse (.ofList (twoPairs.map .ok)) {} 6).session.stack.map (·.symbol) =
      [")", "S", "(", startName] ∧
    g.IsPath (g.parse (.ofList (twoPairs.map .ok)) {} 6).session.stack := by
  have hrun : (build nested).result.map (fun g =>
      (g.parse (.ofList (twoPairs.map .ok)) {} 6).session.stack.map (·.symbol)) =
        .ok [")", "S", "(", startName] := by
    decide +kernel
  obtain ⟨g, hg, hstack⟩ := exists_of_map_eq_ok hrun
  exact ⟨g, hg, hstack, (parse_keeps_to_tables hg _ _ _).1⟩

end Grammar

end GuardedGrammar
