/-
  Parses under other names.

  A grammar without guards and actions does with a terminal what the cell of its tables says, and the
  tables hold no names.  So if the names of a grammar and of what it reads are renamed together, both
  parses do the same step by step: the same states lie on the stack, the symbols on it are renamed, and
  the counts are equal (`Session.RenamesTo`).  Names are compared in two places, where a terminal is
  looked up, and where the right-hand side of a rule is bound to the stack; there, equal names have equal
  new names and different ones different.

  Main statement: `renaming_invariance`.
-/
import GuardedGrammar.Proofs.Renaming
import GuardedGrammar.Proofs.Safety

namespace GuardedGrammar

variable {f : String → String} {domain : Set String}

/-! ## What is the same up to names

Names occur in terminals, in the entries of the stack and in errors. All else of two parses that
differ in names only is the same. -/

/-- An error with the names in it renamed. -/
def ParseError.rename (f : String → String) : ParseError → ParseError
  | .failed (.noAction state terminal) => .failed (.noAction state (f terminal))
  | .failed (.noSatisfiedReduce state terminal) => .failed (.noSatisfiedReduce state (f terminal))
  | .unknownTerminal name index => .unknownTerminal (f name) index
  | e => e

/-- A terminal with the new name of another. The attributes may be what they like. -/
structure Terminal.RenamesTo (f : String → String) (domain : Set String) (t t' : Terminal) : Prop where
  mem : t.name ∈ domain
  name : t'.name = f t.name

/-- What a source answers, with the names renamed. -/
inductive ItemsAlike (f : String → String) (domain : Set String) :
    Option (Except ParseError Terminal) → Option (Except ParseError Terminal) → Prop
  | none : ItemsAlike f domain none none
  | terminal {t t' : Terminal} (h : t.RenamesTo f domain t') :
    ItemsAlike f domain (some (.ok t)) (some (.ok t'))
  | error (e : ParseError) : ItemsAlike f domain (some (.error e)) (some (.error (e.rename f)))

/-- A source whose answers are those of another with the names renamed. -/
def Source.RenamesTo (f : String → String) (domain : Set String) (source source' : Source) : Prop :=
  ∀ i, ItemsAlike f domain (source i).item (source' i).item

/-- The same states lie on the stack, the symbols are renamed, and as much has been done. -/
structure Session.RenamesTo (f : String → String) (s s' : Session) : Prop where
  stack : s'.stack.map StackEntry.place = s.stack.map fun e => (e.state, f e.symbol)
  stats : s'.stats = s.stats

/-- Two steps end in the same way. -/
inductive ResultsAlike (f : String → String) (domain : Set String) :
    Except ParseError Grammar.Progress → Except ParseError Grammar.Progress → Prop
  | accepted : ResultsAlike f domain (.ok .accepted) (.ok .accepted)
  | reading {t t' : Terminal} (h : t.RenamesTo f domain t') :
    ResultsAlike f domain (.ok (.reading t)) (.ok (.reading t'))
  | error (e : ParseError) : ResultsAlike f domain (.error e) (.error (e.rename f))

/-- Two parses go on in the same way. -/
inductive StatusAlike (f : String → String) (domain : Set String) : Status → Status → Prop
  | reading {t t' : Terminal} (h : t.RenamesTo f domain t') :
    StatusAlike f domain (.reading t) (.reading t')
  | ended (r : Except ParseError Stats) :
    StatusAlike f domain (.ended r) (.ended (r.mapError (ParseError.rename f)))

/-- Two parses have come equally far, up to names. -/
structure Configuration.RenamesTo (f : String → String) (domain : Set String)
    (c c' : Configuration) : Prop where
  session : c.session.RenamesTo f c'.session
  status : StatusAlike f domain c.status c'.status

/-- Of two lists that are related entry by entry, the entries at a place are related. -/
theorem rel_getElem?_of_forall₂ {α β : Type} {R : α → β → Prop} {l : List α} {l' : List β}
    (h : List.Forall₂ R l l') (i : Nat) : Option.Rel R l[i]? l'[i]? := by
  induction h generalizing i with
  | nil => exact .none
  | cons hentry _ ih =>
    cases i with
    | zero => exact .some hentry
    | succ i => exact ih i

/-- Rows of terminals that are the same up to names are sources that are. -/
theorem Source.renamesTo_ofList {ts ts' : List Terminal}
    (h : List.Forall₂ (Terminal.RenamesTo f domain) ts ts') :
    (ofList (ts.map .ok)).RenamesTo f domain (ofList (ts'.map .ok)) := by
  intro i
  show ItemsAlike f domain (ts.map .ok)[i]? (ts'.map .ok)[i]?
  rw [List.getElem?_map, List.getElem?_map]
  have hsame := rel_getElem?_of_forall₂ h i
  generalize ts[i]? = t, ts'[i]? = t' at hsame
  cases hsame with
  | none => exact .none
  | some ht => exact .terminal ht

theorem Rule.RenamesTo.length_eq {r r' : Rule} (h : r.RenamesTo f r') :
    r'.rhs.length = r.rhs.length := by
  have hlength := congrArg List.length h.rhs
  rwa [List.length_map, List.length_map] at hlength

namespace Session.RenamesTo

variable {s s' : Session}

theorem length_eq (h : s.RenamesTo f s') : s'.stack.length = s.stack.length := by
  have hlength := congrArg List.length h.stack
  rwa [List.length_map, List.length_map] at hlength

/-- The state is the same, also when entries have been taken off. -/
theorem topState_drop (h : s.RenamesTo f s') (n : Nat) :
    StackEntry.topState (s'.stack.drop n) = StackEntry.topState (s.stack.drop n) := by
  have hdrop := congrArg (List.drop n) h.stack
  rw [← List.map_drop, ← List.map_drop] at hdrop
  generalize s.stack.drop n = upper, s'.stack.drop n = upper' at hdrop
  cases upper with
  | nil =>
    rw [List.map_eq_nil_iff.1 hdrop]
  | cons e upper =>
    obtain ⟨e', upper', rfl, he, -⟩ := List.map_eq_cons_iff.1 hdrop
    exact congrArg Prod.fst he

/-! Two sessions that are the same up to names stay so if both count a terminal, or push the same
state for a terminal and its new name. -/

theorem state_eq (h : s.RenamesTo f s') : s'.state = s.state := h.topState_drop 0

theorem answered (h : s.RenamesTo f s') : s.answered.RenamesTo f s'.answered where
  stack := h.stack
  stats := congrArg (fun c : Stats => { c with terminals := c.terminals + 1 }) h.stats

theorem shifted (h : s.RenamesTo f s') {t t' : Terminal} (ht : t.RenamesTo f domain t') (j : Nat) :
    (s.shifted j t).RenamesTo f (s'.shifted j t') where
  stack := congrArg₂ List.cons (congrArg (Prod.mk j) ht.name) h.stack
  stats := congrArg (fun c : Stats => { c with shifts := c.shifts + 1 }) h.stats

/-- Both take as many entries off, and push the same state for the left-hand side. -/
theorem reduced (h : s.RenamesTo f s') {r r' : Rule} (hr : r.RenamesTo f r') (scope scope' : Scope)
    (j : Nat) (attributes attributes' : Attributes) :
    (s.reduced r scope j attributes).RenamesTo f (s'.reduced r' scope' j attributes') := by
  refine ⟨?_, congrArg (fun c : Stats => { c with reductions := c.reductions + 1 }) h.stats⟩
  have hdrop := congrArg (List.drop r.rhs.length) h.stack
  rw [← List.map_drop, ← List.map_drop] at hdrop
  show (j, r'.lhs.name) :: (s'.stack.drop r'.rhs.length).map StackEntry.place = _
  rw [hr.lhs, hr.length_eq, hdrop]
  rfl

end Session.RenamesTo

namespace Grammar

variable {g g' : Grammar} {first first' : Rule} {rest rest' : List Rule} {s s' : Session}
  {source source' : Source} {t t' : Terminal}

/-! ## Looking things up -/

namespace RenamesTo

variable (h : g.RenamesTo f domain g') (hf : IsRenaming f domain)
include h

/-- Reductions are put in the same order, since the right-hand sides are equally long. -/
theorem ranked_eq (ps : List Nat) : g'.ranked ps = g.ranked ps := by
  have hprecedes (p q : Nat) : g'.precedes p q = g.precedes p q := by
    unfold precedes
    rw [h.productions]
  have hrank (p : Nat) (qs : List Nat) : g'.rank p qs = g.rank p qs := by
    induction qs with
    | nil => rfl
    | cons q qs ih => rw [rank, rank, hprecedes, ih]
  induction ps with
  | nil => rfl
  | cons p ps ih =>
    show g'.rank p (g'.ranked ps) = g.rank p (g.ranked ps)
    rw [hrank, ih]

/-- Rules of the same number are renamed. -/
theorem rule {p : Nat} (hp : g.rules[p]? = some (g.rule p)) :
    (g.rule p).RenamesTo f (g'.rule p) := by
  have hsame := rel_getElem?_of_forall₂ h.rules p
  rw [hp] at hsame
  generalize hp' : g'.rules[p]? = entry at hsame
  cases hsame with
  | some hr =>
    show (g.rule p).RenamesTo f (g'.rules[p]?.getD default)
    rw [hp']
    exact hr

theorem cell_eq (state id : Nat) : g'.cell state id = g.cell state id := by
  rw [cell, cell, h.tables, Automaton.column, Automaton.column, h.nonterminals]

include hf

/-! Looked up under its new name, a terminal has the same number and the same cell, and a
nonterminal leads to the same state. -/

theorem terminalId?_eq {name : String} (hname : name ∈ domain) :
    g'.terminalId? (f name) = g.terminalId? name := by
  rw [terminalId?, terminalId?, h.names.id?_eq hf.injOn hname, h.nonterminals]

theorem actions_eq (state : Nat) {name : String} (hname : name ∈ domain) :
    g'.actions state (f name) = g.actions state name := by
  rw [actions, actions, h.terminalId?_eq hf hname]
  cases g.terminalId? name with
  | none => rfl
  | some id => exact h.cell_eq state id

theorem goto?_eq (state : Nat) {name : String} (hname : name ∈ domain) :
    g'.goto? state (f name) = g.goto? state name := by
  rw [goto?, goto?, nonterminalId?, nonterminalId?, h.names.id?_eq hf.injOn hname, h.nonterminals,
    h.tables]

end RenamesTo

/-! ## A step of a plain grammar -/

/-- No rule has a guard or an action. -/
def IsPlain (g : Grammar) : Prop := ∀ r ∈ g.rules, r.condition = none ∧ r.action = none

/-- A grammar from plain rules is plain, since the start rule has neither guard nor action. -/
theorem IsBuiltFrom.isPlain (hg : g.IsBuiltFrom first rest)
    (h : ∀ r ∈ first :: rest, r.condition = none ∧ r.action = none) : g.IsPlain := by
  intro r hr
  rw [hg.rules_eq] at hr
  rcases List.mem_cons.1 hr with rfl | hr
  · exact ⟨rfl, rfl⟩
  · exact h r hr

/-- Without guards, the first of the reductions is chosen. -/
theorem run_select_of_condition_eq_none {p q : Nat} {ps qs : List Nat}
    (hranked : g.ranked (p :: ps) = q :: qs) (hq : (g.rule q).condition = none) (state : Nat)
    (terminal : String) (s : Session) :
    (g.select ((p :: ps).map .reduce) state terminal).run s = ⟨[], s, .ok q⟩ := by
  unfold select
  rw [reductions?_map_reduce]
  dsimp only
  rw [hranked, firstApplicable, hq]
  rfl

/-- Without an action, a reduction puts the left-hand side in the place of the right-hand side. -/
theorem run_reduce_of_action_eq_none (hg : g.IsBuiltFrom first rest) {p j : Nat}
    (h : g.Reducible s.stack p)
    (hj : g.goto? (StackEntry.topState (s.stack.drop (g.rule p).rhs.length))
      (g.rule p).lhs.name = some j) (haction : (g.rule p).action = none) :
    (g.reduce p).run s = ⟨[.reduced p (g.rule p), .wentTo j],
      s.reduced (g.rule p) (s.topScope (g.rule p)) j ∅, .ok ()⟩ := by
  have hact : (act (g.rule p)).run (s.topScope (g.rule p)) =
      ⟨[], s.topScope (g.rule p), .ok ∅⟩ := by
    unfold act
    rw [haction]
    rfl
  exact run_reduce_of_ok hg h hj hact

/-- Where a cell has reductions, one of them is carried out. -/
theorem run_carryOut_reductions (source : Source) (hg : g.IsBuiltFrom first rest) (hplain : g.IsPlain)
    (hpath : g.IsPath s.stack) {p q : Nat} {ps qs : List Nat}
    (hcell : g.actions s.state t.name = (p :: ps).map .reduce)
    (hranked : g.ranked (p :: ps) = q :: qs) :
    g.rules[q]? = some (g.rule q) ∧ ∃ j,
      g.goto? (StackEntry.topState (s.stack.drop (g.rule q).rhs.length)) (g.rule q).lhs.name =
        some j ∧
      (g.carryOut source ((p :: ps).map .reduce) s.state t).run s =
        ⟨[.reduced q (g.rule q), .wentTo j], s.reduced (g.rule q) (s.topScope (g.rule q)) j ∅,
          .ok (.reading t)⟩ := by
  -- the reduction that comes first is one of the cell
  have hin : .reduce q ∈ g.actions s.state t.name := by
    rw [hcell]
    exact List.mem_map_of_mem ((mem_ranked _ _).1 (hranked ▸ List.mem_cons_self))
  have hred := hpath.reducible_of_mem_actions hg hin
  obtain ⟨_, hproduction⟩ := hred.production
  obtain ⟨hcondition, haction⟩ := hplain _ (hg.rule_mem hproduction)
  obtain ⟨j, hj⟩ := hred.goto
  refine ⟨(hg.rules_of_production hproduction).1, j, hj, ?_⟩
  -- no guard is tested, and no action is carried out
  show (g.select ((p :: ps).map .reduce) s.state t.name >>= fun index =>
    g.reduce index >>= fun _ => pure (Progress.reading t)).run s = _
  rw [Task.run_bind_of_ok (run_select_of_condition_eq_none hranked hcondition _ _ s),
    Task.run_bind_of_ok (run_reduce_of_action_eq_none hg hred hj haction)]
  rfl

/-! ## Both parses -/

/-- What two steps leave behind is the same up to names. -/
structure DoneAlike (f : String → String) (domain : Set String)
    (done done' : Completed Session ParseError Progress) : Prop where
  state : done.state.RenamesTo f done'.state
  result : ResultsAlike f domain done.result done'.result

section

variable (h : g.RenamesTo f domain g') (hf : IsRenaming f domain) (hs : s.RenamesTo f s')
  (ht : t.RenamesTo f domain t')

include hs in
/-- Both parses are accepted, or neither is. -/
theorem doneAlike_conclude : DoneAlike f domain (conclude.run s) (conclude.run s') := by
  unfold conclude
  rw [Task.run_note_bind, Task.run_note_bind, Task.run_get_bind, Task.run_get_bind, hs.length_eq]
  by_cases hheight : s.stack.length = 2
  · rw [if_pos hheight]
    exact ⟨hs, .accepted⟩
  · rw [if_neg hheight]
    exact ⟨hs, .error _⟩

include hs in
/-- Both sources answer alike. -/
theorem doneAlike_pull (hsource : source.RenamesTo f domain source') :
    DoneAlike f domain ((Progress.reading <$> Session.pull source).run s)
      ((Progress.reading <$> Session.pull source').run s') := by
  have hitem := hsource s.stats.terminals
  rw [run_map, run_map, run_pull, run_pull, hs.stats]
  generalize (source s.stats.terminals).item = item,
    (source' s.stats.terminals).item = item' at hitem
  cases hitem with
  | none => exact ⟨hs, .error _⟩
  | terminal ht => exact ⟨hs.answered, .reading ht⟩
  | error e => exact ⟨hs.answered, .error e⟩

include hs ht in
/-- Both parses shift to the same state, and then ask their sources. -/
theorem doneAlike_shift (hsource : source.RenamesTo f domain source') (j : Nat) :
    DoneAlike f domain ((shift j t >>= fun _ => Progress.reading <$> Session.pull source).run s)
      ((shift j t' >>= fun _ => Progress.reading <$> Session.pull source').run s') := by
  have hshift (s : Session) (t : Terminal) :
      (shift j t).run s = ⟨[.shifted j], s.shifted j t, .ok ()⟩ := rfl
  rw [Task.run_bind_of_ok (hshift s t), Task.run_bind_of_ok (hshift s' t')]
  obtain ⟨hstate, hresult⟩ := doneAlike_pull (hs.shifted ht j) hsource
  exact ⟨hstate, hresult⟩

include h hf hs ht in
/-- By what the cell has: it is the same cell, for the same state and the same terminal. -/
theorem doneAlike_carryOut (hg : g.IsBuiltFrom first rest) (hg' : g'.IsBuiltFrom first' rest')
    (hplain : g.IsPlain) (hplain' : g'.IsPlain) (hpath : g.IsPath s.stack)
    (hpath' : g'.IsPath s'.stack) (hwithin : ∀ r ∈ g.rules, r.lhs.name ∈ domain)
    (hsource : source.RenamesTo f domain source') {c : Cell}
    (hc : g.actions s.state t.name = c) :
    DoneAlike f domain ((g.carryOut source c s.state t).run s)
      ((g'.carryOut source' c s'.state t').run s') := by
  have hc' : g'.actions s'.state t'.name = c := by
    rw [hs.state_eq, ht.name, h.actions_eq hf _ ht.mem, hc]
  have hdecided : c.IsDecided := hc ▸ hg.isDecided_actions s.state t.name
  cases hdecided with
  | empty =>
    rw [hs.state_eq]
    show DoneAlike f domain ⟨[], s, .error (.failed (.noAction s.state t.name))⟩
      ⟨[], s', .error (.failed (.noAction s.state t'.name))⟩
    rw [ht.name]
    exact ⟨hs, .error (.failed (.noAction s.state t.name))⟩
  | accept => exact doneAlike_conclude hs
  | shift j => exact doneAlike_shift hs ht hsource j
  | reductions p ps =>
    have hne : g.ranked (p :: ps) ≠ [] := fun hnil =>
      List.not_mem_nil (hnil ▸ (mem_ranked (p :: ps) p).2 List.mem_cons_self)
    obtain ⟨q, qs, hranked⟩ := List.exists_cons_of_ne_nil hne
    have hranked' := (h.ranked_eq (p :: ps)).trans hranked
    obtain ⟨hq, j, hj, hrun⟩ := run_carryOut_reductions source hg hplain hpath hc hranked
    obtain ⟨-, j', hj', hrun'⟩ :=
      run_carryOut_reductions source' hg' hplain' hpath' hc' hranked'
    have hrule := h.rule hq
    have hlength : (g'.rule q).rhs.length = (g.rule q).rhs.length := hrule.length_eq
    -- both go to the same state, since the same state lies below the right-hand side
    have hgoto := h.goto?_eq hf (StackEntry.topState (s.stack.drop (g.rule q).rhs.length))
      (hwithin _ (List.mem_of_getElem? hq))
    rw [hlength, hs.topState_drop, hrule.lhs, hgoto] at hj'
    obtain rfl := Option.some.inj (hj.symm.trans hj')
    rw [hrun, hrun']
    exact ⟨hs.reduced hrule _ _ j ∅ ∅, .reading ht⟩

include h hf hs ht in
/-- Steps that are made from alike sessions are alike, if both stacks are paths. -/
theorem doneAlike_step (hg : g.IsBuiltFrom first rest) (hg' : g'.IsBuiltFrom first' rest')
    (hplain : g.IsPlain) (hplain' : g'.IsPlain) (hpath : g.IsPath s.stack)
    (hpath' : g'.IsPath s'.stack) (hwithin : ∀ r ∈ g.rules, r.lhs.name ∈ domain)
    (hsource : source.RenamesTo f domain source') :
    DoneAlike f domain ((g.step source t).run s) ((g'.step source' t').run s') := by
  have hid' : g'.terminalId? t'.name = g.terminalId? t.name := by
    rw [ht.name, h.terminalId?_eq hf ht.mem]
  unfold step
  rw [Task.run_get_bind, Task.run_note_bind, Task.run_get_bind, Task.run_note_bind, hid']
  cases hid : g.terminalId? t.name with
  -- the name is reported that is not known, with the number of its place
  | none =>
    show DoneAlike f domain ⟨_, s, .error (.unknownTerminal t.name (s.stats.terminals - 1))⟩
      ⟨_, s', .error (.unknownTerminal t'.name (s'.stats.terminals - 1))⟩
    rw [ht.name, hs.stats]
    exact ⟨hs, .error (.unknownTerminal t.name (s.stats.terminals - 1))⟩
  | some id =>
    have hcell : g'.cell s'.state id = g.cell s.state id := by
      rw [hs.state_eq, h.cell_eq]
    obtain ⟨hstate, hresult⟩ := doneAlike_carryOut h hf hs ht hg hg' hplain hplain' hpath hpath'
      hwithin hsource (actions_of_terminalId? hid s.state)
    dsimp only
    rw [hcell]
    exact ⟨hstate, hresult⟩

end

/-- What is reported at the end of a step. -/
theorem statusAlike_statusOf (hs : s.RenamesTo f s') {r r' : Except ParseError Progress}
    (hr : ResultsAlike f domain r r') :
    StatusAlike f domain (Configuration.statusOf s r) (Configuration.statusOf s' r') := by
  cases hr with
  | accepted =>
    show StatusAlike f domain (.ended (.ok s.stats)) (.ended (.ok s'.stats))
    rw [hs.stats]
    exact .ended (.ok s.stats)
  | reading ht => exact .reading ht
  | error e => exact .ended (.error e)

/-- Tasks that are done alike leave parses that have come equally far. -/
theorem renamesTo_after {done done' : Completed Session ParseError Progress}
    (h : DoneAlike f domain done done') (log log' : List Event) :
    (Configuration.after log done).RenamesTo f domain (Configuration.after log' done') := by
  refine ⟨h.state, ?_⟩
  rw [Configuration.status_after, Configuration.status_after]
  exact statusAlike_statusOf h.state h.result

/-! ## Whole parses -/

section

variable (hf : IsRenaming f domain) (h : g.RenamesTo f domain g') (hg : g.IsBuiltFrom first rest)
  (hg' : g'.IsBuiltFrom first' rest') (hplain : g.IsPlain) (hplain' : g'.IsPlain)
  (hwithin : ∀ r ∈ g.rules, r.lhs.name ∈ domain) (hsource : source.RenamesTo f domain source')
include hf h hg hg' hplain hplain' hwithin hsource

/-- By induction on the steps: each keeps both parses alike, since both stacks are paths. -/
theorem renamesTo_parse (output output' : Sink) (n : Nat) :
    (g.parse source output n).RenamesTo f domain (g'.parse source' output' n) := by
  induction n with
  | zero =>
    -- the start symbol keeps its name
    have hinitial : (Session.initial output).RenamesTo f (Session.initial output') :=
      ⟨congrArg (fun name => [(0, name)]) hf.start_eq.symm, rfl⟩
    exact renamesTo_after (doneAlike_pull hinitial hsource) [] []
  | succ n ih =>
    have hpath := (keepsToTables_parse hg source output n).path
    have hpath' := (keepsToTables_parse hg' source' output' n).path
    rw [parse_succ, parse_succ]
    generalize g.parse source output n = c, g'.parse source' output' n = c' at ih hpath hpath'
    obtain ⟨hsession, hstatus⟩ := ih
    generalize hc : c.status = status, hc' : c'.status = status' at hstatus
    cases hstatus with
    | ended r =>
      rw [Configuration.next_of_ended g source c _ hc, Configuration.next_of_ended g' source' c' _ hc']
      refine ⟨hsession, ?_⟩
      rw [hc, hc']
      exact .ended r
    | reading ht =>
      rw [Configuration.next_of_reading hc, Configuration.next_of_reading hc']
      exact renamesTo_after (doneAlike_step h hf hsession ht hg hg' hplain hplain' hpath hpath'
        hwithin hsource) _ _

end

/-- The result of a parse is renamed with the parse. -/
theorem result?_of_renamesTo {c c' : Configuration} (h : c.RenamesTo f domain c') :
    c'.result? = c.result?.map fun r => r.mapError (ParseError.rename f) := by
  have hstatus := h.status
  unfold Configuration.result?
  generalize c.status = status, c'.status = status' at hstatus
  cases hstatus <;> rfl

/-- Nothing depends on what names are.  If the names of a list of rules are replaced by other names,
equal ones by equal ones and different ones by different ones, and the indices, the actions and the
contents of the guards by any, then both lists fail with the same error up to the names in it, or both
give a grammar, with the same productions, sets, states and tables.  If there are no guards and no actions,
then a row of terminals and the same row under the new names are parsed in the same way, step by step: to
the same counts, or the same failure up to the names in it. -/
theorem renaming_invariance (hf : IsRenaming f domain) (rules rules' : List Rule)
    (hnames : ∀ r ∈ rules, ∀ s ∈ r.symbols, s.name ∈ domain)
    (hrules : List.Forall₂ (Rule.RenamesTo f) rules rules') :
    BuildsAlike f domain (build rules).result (build rules').result ∧
      ((∀ r ∈ rules ++ rules', r.condition = none ∧ r.action = none) →
        ∀ g g', (build rules).result = .ok g → (build rules').result = .ok g' →
        ∀ ts ts', List.Forall₂ (Terminal.RenamesTo f domain) ts ts' → ∀ output output' n,
          (g'.parse (.ofList (ts'.map .ok)) output' n).session.stats =
              (g.parse (.ofList (ts.map .ok)) output n).session.stats ∧
            (g'.parse (.ofList (ts'.map .ok)) output' n).result? =
              (g.parse (.ofList (ts.map .ok)) output n).result?.map
                fun r => r.mapError (ParseError.rename f)) := by
  have hbuilds := buildsAlike_build hf hrules hnames
  refine ⟨hbuilds, ?_⟩
  intro hplain g g' hg hg' ts ts' hts output output' n
  rw [hg, hg'] at hbuilds
  cases hbuilds with
  | built h =>
    obtain ⟨first, rest, rfl, hbuilt⟩ := isBuiltFrom_of_build hg
    obtain ⟨first', rest', rfl, hbuilt'⟩ := isBuiltFrom_of_build hg'
    have hplain₁ : g.IsPlain :=
      hbuilt.isPlain fun r hr => hplain r (List.mem_append_left _ hr)
    have hplain₂ : g'.IsPlain :=
      hbuilt'.isPlain fun r hr => hplain r (List.mem_append_right _ hr)
    -- the start rule is in front of those that are given
    have hwithin : ∀ r ∈ g.rules, r.lhs.name ∈ domain := by
      intro r hr
      rw [hbuilt.rules_eq] at hr
      rcases List.mem_cons.1 hr with rfl | hr
      · exact hf.start_mem
      · exact hnames r hr r.lhs List.mem_cons_self
    have hparse := renamesTo_parse hf h hbuilt hbuilt' hplain₁ hplain₂ hwithin
      (Source.renamesTo_ofList hts) output output' n
    exact ⟨hparse.session.stats, result?_of_renamesTo hparse⟩

/-- Rows of one letter, with commas between them. -/
def letters : List Rule :=
  [ { lhs := ⟨"row", none⟩, rhs := [⟨"row", some 1⟩, ⟨",", none⟩, ⟨"letter", none⟩] },
    { lhs := ⟨"row", none⟩, rhs := [⟨"letter", none⟩] } ]

/-- The two names are exchanged, and there are semicolons for commas. -/
def exchanged : String → String
  | "row" => "letter"
  | "letter" => "row"
  | "," => ";"
  | name => name

/-- The same rows under the new names, with other indices. -/
def exchangedLetters : List Rule :=
  [ { lhs := ⟨"letter", some 2⟩, rhs := [⟨"letter", none⟩, ⟨";", some 7⟩, ⟨"row", none⟩] },
    { lhs := ⟨"letter", none⟩, rhs := [⟨"row", some 1⟩] } ]

/-- All names that occur in the rows of letters. -/
def letterNames : List String := [startName, endName, "row", "letter", ","]

/-- No two names are given the same new name, and the reserved ones are kept. -/
theorem isRenaming_exchanged : IsRenaming exchanged { name | name ∈ letterNames } where
  injOn := by
    have h : ∀ a ∈ letterNames, ∀ b ∈ letterNames, exchanged a = exchanged b → a = b := by decide
    exact fun a ha b hb => h a ha b hb
  start_mem := List.mem_cons_self
  end_mem := List.mem_cons_of_mem _ List.mem_cons_self
  start_eq := by decide
  end_eq := by decide

/-- Where two letters follow each other, the second is the error, under its own name in both. -/
theorem renaming_invariance_letters : ∃ g g', (build letters).result = .ok g ∧
    (build exchangedLetters).result = .ok g' ∧ g'.tables = g.tables ∧
    (g.parse (.ofList ([⟨"letter", ∅⟩, ⟨"letter", ∅⟩].map .ok)) {} 9).result? =
      some (.error (.failed (.noAction 2 "letter"))) ∧
    (g'.parse (.ofList ([⟨"row", ∅⟩, ⟨"row", ∅⟩].map .ok)) {} 9).result? =
      some (.error (.failed (.noAction 2 "row"))) := by
  have hrun : (build letters).result.map (fun g =>
      (g.parse (.ofList ([⟨"letter", ∅⟩, ⟨"letter", ∅⟩].map .ok)) {} 9).result?) =
        .ok (some (.error (.failed (.noAction 2 "letter")))) := by
    decide +kernel
  obtain ⟨g, hg, hresult⟩ := exists_of_map_eq_ok hrun
  have hnames : ∀ r ∈ letters, ∀ s ∈ r.symbols, s.name ∈ letterNames := by decide
  have hrules : List.Forall₂ (Rule.RenamesTo exchanged) letters exchangedLetters :=
    .cons ⟨by decide, by decide, rfl⟩ (.cons ⟨by decide, by decide, rfl⟩ .nil)
  -- both rows are made up of what the rules call letters
  have hrow : List.Forall₂ (Terminal.RenamesTo exchanged { name | name ∈ letterNames })
      [⟨"letter", ∅⟩, ⟨"letter", ∅⟩] [⟨"row", ∅⟩, ⟨"row", ∅⟩] := by
    have hmem : "letter" ∈ letterNames := by decide
    exact .cons ⟨hmem, by decide⟩ (.cons ⟨hmem, by decide⟩ .nil)
  obtain ⟨hbuilds, hparses⟩ :=
    renaming_invariance isRenaming_exchanged letters exchangedLetters hnames hrules
  rw [hg] at hbuilds
  generalize hbuilt : (build exchangedLetters).result = built at hbuilds
  cases hbuilds with
  | @built _ g' h =>
    obtain ⟨-, hresult'⟩ := hparses (by decide) g g' hg hbuilt _ _ hrow {} {} 9
    rw [hresult] at hresult'
    exact ⟨g, g', hg, rfl, h.tables, hresult, hresult'⟩

end Grammar

end GuardedGrammar
