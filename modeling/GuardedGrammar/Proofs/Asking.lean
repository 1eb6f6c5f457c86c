/-
  What a parse asks of its source.

  A step that shifts a terminal asks the source for the next one, and no other step asks it for
  anything (`step_cases`); what guards and actions do has nothing to do with the source (`StaysInside`).
  So the source has always been asked once to begin with and once for each terminal that has been
  shifted, the terminals that have been shifted are the first that it has given, and an answer that is
  an error has ended the parse (`HasAsked`).

  Main statements: `step_cases` for one step, `hasAsked_parse` for a whole parse.
-/
import GuardedGrammar.Proofs.Trace

namespace GuardedGrammar

/-! ## Events that come from the source

A parse records what it does itself, and what the reader of the source has matched on the way to its
answers. The two kinds of events are told apart by what they report. -/

namespace Event

/-- The text whose match an event reports. -/
def matched? : Event → Option Matched
  | .matched m => some m
  | _ => none

/-- An event within a step that neither comes from the source nor is the shift of a terminal. -/
def isInward : Event → Bool
  | .matched _ => false
  | .stepBegun _ _ => false
  | .shifted _ => false
  | _ => true

/-- What happens in the scope of a rule happens within the step. -/
theorem isInward_of_isLocal {e : Event} (h : e.isLocal = true) : e.isInward = true := by
  cases e with
  | emitted => rfl
  | registerIssued => rfl
  | _ => exact nomatch h

end Event

/-- The texts that have been matched, in order. -/
def matchedTexts (events : List Event) : List Matched := events.filterMap Event.matched?

theorem matchedTexts_append (a b : List Event) :
    matchedTexts (a ++ b) = matchedTexts a ++ matchedTexts b :=
  List.filterMap_append

theorem matchedTexts_matched (seen : List Matched) : matchedTexts (seen.map .matched) = seen := by
  induction seen with
  | nil => rfl
  | cons m _ ih => exact congrArg (m :: ·) ih

/-- No match is reported within a step. -/
theorem matchedTexts_of_isInward {events : List Event} (h : ∀ e ∈ events, e.isInward = true) :
    matchedTexts events = [] := by
  refine List.filterMap_eq_nil_iff.2 fun e he => ?_
  have hinward := h e he
  cases e with
  | matched => exact nomatch hinward
  | _ => rfl

/-- The names of the terminals that are shifted by the steps whose events these are; the first of the
steps has begun with the incoming terminal. -/
def namesShifted (incoming : String) : List Event → List String
  | [] => []
  | .stepBegun _ name :: rest => namesShifted name rest
  | .shifted _ :: rest => incoming :: namesShifted incoming rest
  | _ :: rest => namesShifted incoming rest

/-- The names of the terminals that have been shifted, in order. -/
def shiftedNames (events : List Event) : List String := namesShifted "" events

/-- Of the events that have happened before, only the terminal of the last step matters. -/
theorem exists_namesShifted_append (incoming : String) (before : List Event) :
    ∃ last, ∀ events, namesShifted incoming (before ++ events) =
      namesShifted incoming before ++ namesShifted last events := by
  -- the terminal that comes in changes with every step that begins
  induction before generalizing incoming with
  | nil => exact ⟨incoming, fun _ => rfl⟩
  | cons e before ih =>
    cases e with
    | shifted =>
      obtain ⟨last, hlast⟩ := ih incoming
      exact ⟨last, fun events => congrArg (incoming :: ·) (hlast events)⟩
    | stepBegun _ name => exact ih name
    | _ => exact ih incoming

/-- Nothing is shifted within what a step does besides shifting. -/
theorem namesShifted_of_isInward {events : List Event} (h : ∀ e ∈ events, e.isInward = true)
    (incoming : String) : namesShifted incoming events = [] := by
  induction events with
  | nil => rfl
  | cons e events ih =>
    obtain ⟨he, hevents⟩ := List.forall_mem_cons.1 h
    cases e with
    | shifted => exact nomatch he
    | stepBegun => exact nomatch he
    | _ => exact ih hevents

/-- A match is no shift. -/
theorem namesShifted_matched (seen : List Matched) (incoming : String) :
    namesShifted incoming (seen.map .matched) = [] := by
  induction seen with
  | nil => rfl
  | cons _ _ ih => exact ih

/-- What the source matches on its way shifts nothing. -/
theorem shiftedNames_append_matched (before : List Event) (seen : List Matched) :
    shiftedNames (before ++ seen.map .matched) = shiftedNames before := by
  unfold shiftedNames
  obtain ⟨last, hlast⟩ := exists_namesShifted_append "" before
  rw [hlast, namesShifted_matched, List.append_nil]

/-- With a step that begins, the terminal that came before is forgotten. -/
theorem shiftedNames_append_begun (before : List Event) (stack : List StackEntry) (name : String)
    (events : List Event) :
    shiftedNames (before ++ .stepBegun stack name :: events) =
      shiftedNames before ++ namesShifted name events := by
  unfold shiftedNames
  obtain ⟨last, hlast⟩ := exists_namesShifted_append "" before
  rw [hlast]
  rfl

/-! ## Tasks that have nothing to do with the source -/

/-- What has been done, behind other events. -/
def Completed.behind {σ ε α : Type} (before : List Event) (done : Completed σ ε α) :
    Completed σ ε α :=
  ⟨before ++ done.events, done.state, done.result⟩

/-- What has been done neither asked the source nor shifted. -/
structure Inward {α : Type} (s : Session) (done : Completed Session ParseError α) : Prop where
  shifts : done.state.stats.shifts = s.stats.shifts
  terminals : done.state.stats.terminals = s.stats.terminals
  events : ∀ e ∈ done.events, e.isInward = true

/-- Whatever session it begins with, the task neither asks the source nor shifts. -/
def StaysInside {α : Type} (task : Task Session ParseError α) : Prop :=
  ∀ s, Inward s (task.run s)

section

variable {α β : Type} {task : Task Session ParseError α} {f : α → Task Session ParseError β}

theorem staysInside_pure (a : α) : StaysInside (pure a : Task Session ParseError α) :=
  fun _ => ⟨rfl, rfl, fun _ h => nomatch h⟩

theorem staysInside_fail (e : ParseError) :
    StaysInside (Task.fail e : Task Session ParseError α) :=
  fun _ => ⟨rfl, rfl, fun _ h => nomatch h⟩

/-- What is done second begins with the counts that the first has left. -/
theorem StaysInside.bind (ht : StaysInside task) (hf : ∀ a, StaysInside (f a)) :
    StaysInside (task >>= f) := by
  intro s
  have hfirst := ht s
  rw [Task.run_bind]
  cases (task.run s).result with
  | error e => exact ⟨hfirst.shifts, hfirst.terminals, hfirst.events⟩
  | ok a =>
    have hsecond := hf a (task.run s).state
    exact ⟨hsecond.shifts.trans hfirst.shifts, hsecond.terminals.trans hfirst.terminals,
      List.forall_mem_append.2 ⟨hfirst.events, hsecond.events⟩⟩

/-- What is done in the scope of a rule does not reach the source. -/
theorem staysInside_inScope {task : Task Scope ParseError α} (ht : Scope.Confined task)
    (rule : Rule) : StaysInside (Session.inScope rule task) := by
  intro s
  rw [Session.run_inScope]
  cases s.scope rule with
  | error e => exact ⟨rfl, rfl, fun _ h => nomatch h⟩
  | ok c => exact ⟨rfl, rfl, fun e he => Event.isInward_of_isLocal (ht.quiet c e he)⟩

end

/-- Nothing that belongs to choosing and reducing asks the source or shifts. -/
theorem composes_staysInside : Session.Composes StaysInside where
  nothing := staysInside_pure
  fail e _ := staysInside_fail e
  bind := StaysInside.bind
  get_bind hf _ s := hf s s
  rearrange h s := ⟨h.shifts s, h.terminals s, fun _ h => nomatch h⟩
  guard rule c := staysInside_inScope (Scope.confined_test c) rule
  action rule := staysInside_inScope (Scope.confined_act rule) rule
  guardTested _ _ _ _ := ⟨rfl, rfl, List.forall_mem_singleton.2 rfl⟩
  reduced _ _ _ := ⟨rfl, rfl, List.forall_mem_singleton.2 rfl⟩
  wentTo _ _ := ⟨rfl, rfl, List.forall_mem_singleton.2 rfl⟩
  accepted _ := ⟨rfl, rfl, List.forall_mem_singleton.2 rfl⟩

namespace Grammar

variable {g : Grammar}

/-- Chooses a reduction, carries it out, and leaves the terminal to the next step. -/
def selectAndReduce (g : Grammar) (c : Cell) (state : Nat) (t : Terminal) :
    Task Session ParseError Progress := do
  let index ← g.select c state t.name
  g.reduce index
  pure (.reading t)

/-- Asks the source for the terminal that is to be dealt with next. -/
def ask (source : Source) : Task Session ParseError Progress :=
  .reading <$> Session.pull source

end Grammar

section

variable {P : ∀ {α : Type}, Task Session ParseError α → Prop}

/-- What is closed under composition holds of choosing a reduction and carrying it out. -/
theorem Session.Composes.selectAndReduce (h : Session.Composes P) (g : Grammar) (c : Cell)
    (state : Nat) (t : Terminal) : P (g.selectAndReduce c state t) :=
  h.bind (h.select g c state t.name) fun index => h.bind (h.reduce g index) fun _ => h.nothing _

/-- The property holds of whatever a cell says, unless that is to shift. -/
theorem Session.Composes.shift_or_carryOut (h : Session.Composes P) (g : Grammar) (source : Source)
    (t : Terminal) (c : Cell) (state : Nat) :
    (∃ j, c = [.shift j]) ∨ P (g.carryOut source c state t) := by
  match c with
  | [] => exact .inr (h.fail _ nofun)
  | [.accept] => exact .inr h.conclude
  | [.shift j] => exact .inl ⟨j, rfl⟩
  | [.reduce p] => exact .inr (h.selectAndReduce g [.reduce p] state t)
  -- several actions in a cell are always a choice among reductions, whatever the first one is
  | a :: b :: rest =>
    have hreduces : g.carryOut source (a :: b :: rest) state t =
        g.selectAndReduce (a :: b :: rest) state t := by
      cases a <;> rfl
    rw [hreduces]
    exact .inr (h.selectAndReduce g _ state t)

/-- What holds of a shift and of a question besides holds of whatever a cell says. -/
theorem Session.Composes.carryOut (h : Session.Composes P) (g : Grammar) (source : Source)
    {t : Terminal} (hshift : ∀ j, P (Grammar.shift j t)) (hask : P (Grammar.ask source)) (c : Cell)
    (state : Nat) : P (g.carryOut source c state t) := by
  rcases h.shift_or_carryOut g source t c state with ⟨j, rfl⟩ | hcell
  · exact h.bind (hshift j) fun _ => hask
  · exact hcell

end

namespace Grammar

/-! ## One step -/

/-- The task ends the parse, or leaves the terminal to the next step. -/
def Leaves (t : Terminal) (task : Task Session ParseError Progress) : Prop :=
  ∀ s t', (task.run s).result = .ok (.reading t') → t' = t

theorem leaves_fail (t : Terminal) (e : ParseError) : Leaves t (Task.fail e) :=
  fun _ _ h => nomatch h

/-- Only what is done last decides which terminal is left. -/
theorem Leaves.bind {α : Type} {t : Terminal} {task : Task Session ParseError α}
    {f : α → Task Session ParseError Progress} (hf : ∀ a, Leaves t (f a)) :
    Leaves t (task >>= f) := by
  intro s t' h
  rw [Task.run_bind] at h
  cases hresult : (task.run s).result with
  | error e =>
    rw [hresult] at h
    exact nomatch h
  | ok a =>
    rw [hresult] at h
    exact hf a _ t' h

/-- To accept ends the parse, or fails. -/
theorem leaves_conclude (t : Terminal) : Leaves t conclude := by
  refine .bind fun _ => .bind fun s => ?_
  dsimp only
  split
  · exact fun _ _ h => nomatch h
  · exact leaves_fail t _

/-- A reduction leaves the terminal that was read, to be dealt with in another state. -/
theorem leaves_selectAndReduce (g : Grammar) (c : Cell) (state : Nat) (t : Terminal) :
    Leaves t (g.selectAndReduce c state t) :=
  .bind fun _ => .bind fun _ _ _ h => (Progress.reading.inj (Except.ok.inj h)).symm

/-- What a cell does is to shift, or it has nothing to do with the source. -/
theorem carryOut_cases (g : Grammar) (c : Cell) (state : Nat) (t : Terminal) :
    (∃ j, c = [.shift j]) ∨
      ∃ task, StaysInside task ∧ Leaves t task ∧ ∀ source, g.carryOut source c state t = task := by
  match c with
  | [] => exact .inr ⟨_, staysInside_fail _, leaves_fail t _, fun _ => rfl⟩
  | [.shift j] => exact .inl ⟨j, rfl⟩
  | [.accept] => exact .inr ⟨_, composes_staysInside.conclude, leaves_conclude t, fun _ => rfl⟩
  | [.reduce p] =>
    exact .inr ⟨_, composes_staysInside.selectAndReduce g [.reduce p] state t,
      leaves_selectAndReduce g _ state t, fun _ => rfl⟩
  | a :: b :: rest =>
    refine .inr ⟨_, composes_staysInside.selectAndReduce g (a :: b :: rest) state t,
      leaves_selectAndReduce g _ state t, fun _ => ?_⟩
    cases a <;> rfl

/-- A question has three outcomes: nothing more, an error, and a terminal, which alone is
counted. -/
theorem run_ask (source : Source) (s : Session) :
    (ask source).run s =
      match (source s.stats.terminals).item with
      | none => ⟨(source s.stats.terminals).seen.map .matched, s, .error (.failed .endOfInput)⟩
      | some item =>
        ⟨(source s.stats.terminals).seen.map .matched, s.answered, .reading <$> item⟩ := by
  unfold ask
  rw [run_map, run_pull]
  cases (source s.stats.terminals).item <;> rfl

/-- All that a step can do to its source: it shifts the terminal and asks for the next, or what it does
is the same whatever the source is. -/
theorem step_cases (g : Grammar) (s : Session) (t : Terminal) :
    (∃ j, .shift j ∈ g.actions s.state t.name ∧ ∀ source, (g.step source t).run s =
        ((ask source).run (s.shifted j t)).behind [.stepBegun s.stack t.name, .shifted j]) ∨
      ∃ task, StaysInside task ∧ Leaves t task ∧ ∀ source, (g.step source t).run s =
        (task.run s).behind [.stepBegun s.stack t.name] := by
  unfold step
  cases hid : g.terminalId? t.name with
  | none => exact .inr ⟨_, staysInside_fail _, leaves_fail t _, fun _ => rfl⟩
  | some id =>
    -- the cell says whether the source is asked
    rcases carryOut_cases g (g.cell s.state id) s.state t with
      ⟨j, hcell⟩ | ⟨task, hin, hleaves, htask⟩
    · refine .inl ⟨j, ?_, fun source => ?_⟩
      · rw [actions_of_terminalId? hid, hcell]
        exact List.mem_cons_self
      · rw [Task.run_get_bind, Task.run_note_bind]
        dsimp only
        rw [hcell]
        rfl
    · refine .inr ⟨task, hin, hleaves, fun source => ?_⟩
      rw [Task.run_get_bind, Task.run_note_bind]
      dsimp only
      rw [htask source]
      rfl

end Grammar

/-! ## What has been asked -/

/-- The source has been asked once for each terminal that has been shifted, and these are what it has
answered. -/
structure MayAsk (source : Source) (log : List Event) (s : Session) : Prop where
  terminals : s.stats.terminals = s.stats.shifts
  matched : matchedTexts log.reverse =
    (List.range s.stats.shifts).flatMap fun i => (source i).seen
  shifted : ∃ ts, source.Gives ts ∧ ts.length = s.stats.shifts ∧
    shiftedNames log.reverse = ts.map (·.name)

/-- The source has been asked once more than there are terminals that have been shifted; these are what
it has answered, and then the terminal that the parse is to deal with, or an error if it has ended so. -/
structure HasAsked (source : Source) (c : Configuration) : Prop where
  matched : matchedTexts c.events =
    (List.range (c.session.stats.shifts + 1)).flatMap fun i => (source i).seen
  shifted : ∃ ts, source.Gives ts ∧ ts.length = c.session.stats.shifts ∧
    shiftedNames c.events = ts.map (·.name)
  reading : ∀ t, c.status = .reading t → (source c.session.stats.shifts).item = some (.ok t) ∧
    c.session.stats.terminals = c.session.stats.shifts + 1
  failed : ∀ e, (source c.session.stats.shifts).item = some (.error e) →
    c.status = .ended (.error e)

variable {source : Source} {c : Configuration}

namespace Configuration

/-- What has been logged is kept in reverse, so later events come at the front. -/
theorem events_after (log : List Event) (done : Completed Session ParseError Grammar.Progress) :
    (after log done).events = log.reverse ++ done.events := by
  unfold after events
  rw [List.reverse_append, List.reverse_reverse]

/-- It is the same whether events belong to what has been done, or have happened before. -/
theorem after_behind (log before : List Event)
    (done : Completed Session ParseError Grammar.Progress) :
    after log (done.behind before) = after (before.reverse ++ log) done := by
  unfold after Completed.behind
  dsimp only
  rw [List.reverse_append, List.append_assoc]

end Configuration

/-- The session after a question has shifted what had been shifted before. -/
theorem shifts_after_ask (source : Source) (log : List Event) (s : Session) :
    (Configuration.after log ((Grammar.ask source).run s)).session.stats.shifts = s.stats.shifts := by
  rw [Grammar.run_ask]
  cases (source s.stats.terminals).item <;> rfl

/-- A question adds its answer to what the source has been asked. -/
theorem MayAsk.hasAsked {log : List Event} {s : Session} (h : MayAsk source log s) :
    HasAsked source (Configuration.after log ((Grammar.ask source).run s)) := by
  have hshifts := shifts_after_ask source log s
  have hevents : (Configuration.after log ((Grammar.ask source).run s)).events =
      log.reverse ++ (source s.stats.shifts).seen.map .matched := by
    rw [Configuration.events_after, Grammar.run_ask, h.terminals]
    cases (source s.stats.shifts).item <;> rfl
  -- the four fields in turn: the texts matched on the way, the terminals given, what is to be dealt
  -- with, and errors
  constructor
  · rw [hevents, hshifts, matchedTexts_append, h.matched, matchedTexts_matched, List.range_succ,
      List.flatMap_append, List.flatMap_singleton]
  · obtain ⟨ts, hgives, hlength, hnames⟩ := h.shifted
    refine ⟨ts, hgives, hlength.trans hshifts.symm, ?_⟩
    rw [hevents, shiftedNames_append_matched]
    exact hnames
  · intro t ht
    rw [hshifts]
    rw [Grammar.run_ask, h.terminals] at ht ⊢
    -- only a terminal leaves something to be dealt with
    cases hitem : (source s.stats.shifts).item with
    | none =>
      rw [hitem] at ht
      exact nomatch ht
    | some item =>
      rw [hitem] at ht
      cases item with
      | error e => exact nomatch ht
      | ok t' =>
        obtain rfl : t' = t := Status.reading.inj ht
        exact ⟨rfl, congrArg (· + 1) h.terminals⟩
  · intro e he
    rw [hshifts] at he
    rw [Grammar.run_ask, h.terminals, he]
    rfl

/-- At the beginning nothing has been shifted, so nothing has been asked. -/
theorem mayAsk_initial (source : Source) (output : Sink) :
    MayAsk source [] (.initial output) :=
  ⟨rfl, rfl, [], fun _ _ h => (nomatch h), rfl, rfl⟩

/-- After a shift it is time to ask again. -/
theorem HasAsked.mayAsk {t : Terminal} (h : HasAsked source c) (ht : c.status = .reading t)
    (j : Nat) : MayAsk source (.shifted j :: .stepBegun c.session.stack t.name :: c.log)
      (c.session.shifted j t) := by
  obtain ⟨hitem, hterminals⟩ := h.reading t ht
  obtain ⟨ts, hgives, hlength, hnames⟩ := h.shifted
  have hlog : (.shifted j :: .stepBegun c.session.stack t.name :: c.log).reverse =
      c.events ++ [.stepBegun c.session.stack t.name, .shifted j] := by
    rw [List.reverse_cons, List.reverse_cons, List.append_assoc]
    rfl
  -- the terminal that is shifted is the one that the source gave last
  rw [← hlength] at hitem
  refine ⟨hterminals, ?_, ts ++ [t], hgives.concat hitem, ?_, ?_⟩
  · rw [hlog, matchedTexts_append]
    exact (List.append_nil _).trans h.matched
  · rw [List.length_append, hlength]
    rfl
  · rw [hlog, List.map_append, ← hnames]
    exact shiftedNames_append_begun c.events c.session.stack t.name [.shifted j]

/-- A step that does not shift leaves alone what the source has been asked. -/
theorem HasAsked.of_inward {t : Terminal} (h : HasAsked source c) (ht : c.status = .reading t)
    {done : Completed Session ParseError Grammar.Progress} (hin : Inward c.session done)
    (hleaves : ∀ t', done.result = .ok (.reading t') → t' = t) :
    HasAsked source
      (Configuration.after c.log (done.behind [.stepBegun c.session.stack t.name])) := by
  have hshifts : (Configuration.after c.log
      (done.behind [.stepBegun c.session.stack t.name])).session.stats.shifts =
        c.session.stats.shifts := hin.shifts
  obtain ⟨ts, hgives, hlength, hnames⟩ := h.shifted
  obtain ⟨hitem, hterminals⟩ := h.reading t ht
  constructor
  · -- no text has been matched, since nobody has asked
    rw [hshifts, Configuration.events_after, matchedTexts_append, ← h.matched]
    have hnone := matchedTexts_of_isInward hin.events
    exact (congrArg (_ ++ ·) hnone).trans (List.append_nil _)
  · refine ⟨ts, hgives, hlength.trans hshifts.symm, ?_⟩
    have hbegun := shiftedNames_append_begun c.events c.session.stack t.name done.events
    rw [namesShifted_of_isInward hin.events, List.append_nil, hnames] at hbegun
    rw [Configuration.events_after]
    exact hbegun
  · intro t' ht'
    rw [hshifts]
    rw [Configuration.status_after] at ht'
    obtain ⟨events, s, result⟩ := done
    match result with
    | .ok (.reading t'') =>
      obtain rfl := hleaves t'' rfl
      obtain rfl : t'' = t' := Status.reading.inj ht'
      exact ⟨hitem, hin.terminals.trans hterminals⟩
    | .ok .accepted => exact nomatch ht'
    | .error _ => exact nomatch ht'
  · -- a source that has given a terminal has not failed there
    intro e he
    rw [hshifts] at he
    exact nomatch hitem.symm.trans he

/-- A step shifts and asks once, or does neither. -/
theorem HasAsked.next (g : Grammar) (h : HasAsked source c) :
    HasAsked source (c.next g source) := by
  cases hread : c.status with
  | ended r => rwa [Configuration.next_of_ended g source c r hread]
  | reading t =>
    rw [Configuration.next_of_reading hread]
    -- either what is asked is added, or the source has not been reached at all
    rcases Grammar.step_cases g c.session t with ⟨j, -, hrun⟩ | ⟨task, hin, hleaves, hrun⟩
    · rw [hrun source, Configuration.after_behind]
      exact (h.mayAsk hread j).hasAsked
    · rw [hrun source]
      exact h.of_inward hread (hin _) (hleaves _)

/-- At every point of a parse, there has been one question more than there are shifts. -/
theorem hasAsked_parse (g : Grammar) (source : Source) (output : Sink) (n : Nat) :
    HasAsked source (g.parse source output n) :=
  Configuration.run_induction (fun _ h => h.next g) n (mayAsk_initial source output).hasAsked

namespace Grammar

/-- What a step shifts is at most one terminal. -/
theorem shifts_next (g : Grammar) (source : Source) (c : Configuration) :
    (c.next g source).session.stats.shifts = c.session.stats.shifts ∨
      (c.next g source).session.stats.shifts = c.session.stats.shifts + 1 := by
  cases hread : c.status with
  | ended r => exact .inl (by rw [Configuration.next_of_ended g source c r hread])
  | reading t =>
    rw [Configuration.next_of_reading hread]
    rcases step_cases g c.session t with ⟨j, -, hrun⟩ | ⟨task, hin, -, hrun⟩
    · right
      rw [hrun source]
      exact shifts_after_ask source c.log (c.session.shifted j t)
    · left
      rw [hrun source]
      exact (hin c.session).shifts

end Grammar

end GuardedGrammar
