/-
  Output that has a limit.

  A parse that writes to a sink of limited room does what the parse with unlimited room does, up to
  the byte that does not fit any more.  There it ends with the refusal of the sink, and what has been
  written is the beginning of what would have been written.

  Nothing looks at the output but the writing of a line, so a task commutes with limiting the output
  as long as all fits (`MindsLimit.within`), and it fails if not (`MindsLimit.beyond`).  Both are
  closed under doing one thing after the other, in the scope of a rule (`Scope`) as on the whole
  session (`Session`), so they hold of a step (`mindsLimit_step`); two parses side by side keep
  `Truncates`.

  Main statement: `parse_into_bounded_sink`.
-/
import GuardedGrammar.Proofs.Asking

namespace GuardedGrammar

/-! ## Limits -/

/-- A sink without a limit, limited so that it takes the given number of bytes in all. -/
def Sink.limited (limit : Nat) (k : Sink) : Sink :=
  { k with room := some (limit - k.written.length) }

/-- What is written to a sink without a limit is added to what has been written. -/
theorem Sink.written_write_of_unlimited {k : Sink} (hroom : k.room = none) (bytes : List UInt8) :
    (k.write bytes).written = k.written ++ bytes := by
  rw [written_write, fitting, hroom]

/-- What does not exceed the limit is taken. -/
theorem Sink.write_limited_of_le {limit : Nat} {k : Sink} {bytes : List UInt8}
    (hroom : k.room = none) (hfits : (k.write bytes).written.length ≤ limit) :
    (k.limited limit).takes bytes = true ∧
      (k.limited limit).write bytes = (k.write bytes).limited limit := by
  rw [written_write_of_unlimited hroom, List.length_append] at hfits
  have hle : bytes.length ≤ limit - k.written.length := by omega
  have htakes : (k.limited limit).takes bytes = true := decide_eq_true hle
  refine ⟨htakes, ?_⟩
  -- the room that is left is the same whether it is counted before or after writing
  have hleft : limit - k.written.length - bytes.length =
      limit - (k.write bytes).written.length := by
    rw [written_write_of_unlimited hroom, List.length_append]
    omega
  have hroom' : ((k.limited limit).write bytes).room = ((k.write bytes).limited limit).room :=
    congrArg some hleft
  have hwrites : ((k.limited limit).write bytes).writes = ((k.write bytes).limited limit).writes := by
    change (k.limited limit).fitting bytes :: k.writes = k.fitting bytes :: k.writes
    rw [fitting_of_takes _ _ htakes, fitting, hroom]
  exact Sink.mk.injEq .. ▸ ⟨hroom', hwrites⟩

/-- Of what exceeds the limit, the bytes before it are taken. -/
theorem Sink.write_limited_of_lt {limit : Nat} {k : Sink} {bytes : List UInt8}
    (hroom : k.room = none) (hfits : k.written.length ≤ limit)
    (hover : limit < (k.write bytes).written.length) :
    (k.limited limit).takes bytes = false ∧
      ((k.limited limit).write bytes).written = (k.write bytes).written.take limit := by
  have hwritten : (k.limited limit).written = k.written := rfl
  rw [written_write_of_unlimited hroom] at hover ⊢
  rw [List.length_append] at hover
  -- more is written than there is room for, and all that was there before fits
  refine ⟨decide_eq_false (by omega), ?_⟩
  rw [written_write, hwritten, List.take_append, List.take_of_length_le hfits]
  rfl

/-- A state in which there is an output. -/
class HasOutput (σ : Type) where
  output : σ → Sink
  /-- The state with its output limited. -/
  limited : Nat → σ → σ

open HasOutput

instance : HasOutput Scope where
  output := Scope.output
  limited limit s := { s with output := s.output.limited limit }

instance : HasOutput Session where
  output := Session.output
  limited limit s := { s with output := s.output.limited limit }

/-- What has been written. -/
def HasOutput.written {σ : Type} [HasOutput σ] (s : σ) : List UInt8 := (output s).written

/-- A task that only ever adds to its output, leaves it without a limit if it had none, and does not
notice a limit, except that it fails where one is exceeded. -/
structure MindsLimit {σ α : Type} [HasOutput σ] (limit : Nat) (t : Task σ ParseError α) : Prop where
  unlimited (s : σ) : (output s).room = none → (output (t.run s).state).room = none
  grows (s : σ) : (output s).room = none → written s <+: written (t.run s).state
  within (s : σ) : (output s).room = none → (written (t.run s).state).length ≤ limit →
    t.run (limited limit s) =
      ⟨(t.run s).events, limited limit (t.run s).state, (t.run s).result⟩
  beyond (s : σ) : (output s).room = none → (written s).length ≤ limit →
    limit < (written (t.run s).state).length →
    (t.run (limited limit s)).result = .error (.broken Sink.refusal) ∧
      written (t.run (limited limit s)).state = (written (t.run s).state).take limit

section

variable {σ α β : Type} [HasOutput σ] {limit : Nat} {t : Task σ ParseError α}
  {f : α → Task σ ParseError β}

/-- A task that neither writes nor looks at the output minds a limit. -/
theorem mindsLimit_of_silent (hsame : ∀ s, output (t.run s).state = output s)
    (hlimited : ∀ s, t.run (limited limit s) =
      ⟨(t.run s).events, limited limit (t.run s).state, (t.run s).result⟩) : MindsLimit limit t where
  unlimited s h := by rw [hsame s, h]
  grows s _ := by rw [written, written, hsame s]
  within s _ _ := hlimited s
  beyond s _ hfits hover := by
    rw [written, hsame s] at hover
    exact absurd hfits (Nat.not_le.2 hover)

/-! Values, failures, events and results that are passed on write nothing: they mind any limit. -/

theorem mindsLimit_pure (a : α) : MindsLimit limit (pure a : Task σ ParseError α) :=
  mindsLimit_of_silent (fun _ => rfl) fun _ => rfl

theorem mindsLimit_fail (e : ParseError) : MindsLimit limit (Task.fail e : Task σ ParseError α) :=
  mindsLimit_of_silent (fun _ => rfl) fun _ => rfl

theorem mindsLimit_note (e : Event) : MindsLimit limit (Task.note e : Task σ ParseError Unit) :=
  mindsLimit_of_silent (fun _ => rfl) fun _ => rfl

theorem mindsLimit_ofExcept (r : Except ParseError α) :
    MindsLimit limit (Task.ofExcept r : Task σ ParseError α) :=
  mindsLimit_of_silent (fun _ => rfl) fun _ => rfl

/-- A change of the state writes nothing if the output stays, and does not notice a limit if it
commutes with it. -/
theorem mindsLimit_modify {h : σ → σ} (hsame : ∀ s, output (h s) = output s)
    (hlimited : ∀ s, h (limited limit s) = limited limit (h s)) :
    MindsLimit limit (Task.modify h : Task σ ParseError Unit) :=
  mindsLimit_of_silent hsame fun s => congrArg (Completed.mk [] · _) (hlimited s)

/-- Looking at a state in a way that does not tell whether its output is limited. -/
theorem MindsLimit.get_bind {h : σ → Task σ ParseError β} (hh : ∀ s, MindsLimit limit (h s))
    (hlimited : ∀ s, h (limited limit s) = h s) : MindsLimit limit (Task.get >>= h) where
  unlimited s := (hh s).unlimited s
  grows s := (hh s).grows s
  within s hroom hfits := by
    rw [Task.run_get_bind, Task.run_get_bind, hlimited s]
    exact (hh s).within s hroom hfits
  beyond s hroom hfits hover := by
    rw [Task.run_get_bind, Task.run_get_bind, hlimited s]
    exact (hh s).beyond s hroom hfits hover

/-- If the first of two tasks exceeds the limit, then the second is not carried out with the limit,
and without it it does not change what the first has written. -/
theorem MindsLimit.bind (ht : MindsLimit limit t) (hf : ∀ a, MindsLimit limit (f a)) :
    MindsLimit limit (t >>= f) where
  unlimited s hroom := by
    rw [Task.run_bind]
    have hfirst := ht.unlimited s hroom
    cases (t.run s).result with
    | error e => exact hfirst
    | ok a => exact (hf a).unlimited _ hfirst
  grows s hroom := by
    rw [Task.run_bind]
    have hfirst := ht.grows s hroom
    cases (t.run s).result with
    | error e => exact hfirst
    | ok a => exact hfirst.trans ((hf a).grows _ (ht.unlimited s hroom))
  within s hroom hfits := by
    have hwithin := ht.within s hroom
    rw [Task.run_bind] at hfits ⊢
    rw [Task.run_bind]
    cases hresult : (t.run s).result with
    | error e =>
      rw [hresult] at hfits hwithin
      rw [hwithin hfits]
    | ok a =>
      rw [hresult] at hfits hwithin
      have hgrows := (hf a).grows _ (ht.unlimited s hroom)
      rw [hwithin (hgrows.length_le.trans hfits)]
      dsimp only
      rw [(hf a).within _ (ht.unlimited s hroom) hfits]
  beyond s hroom hfits hover := by
    rcases Nat.lt_or_ge limit (written (t.run s).state).length with hfirst | hfirst
    · -- with the limit, the first task has failed
      obtain ⟨hfailed, hwritten⟩ := ht.beyond s hroom hfits hfirst
      rw [Task.run_bind, Task.run_bind, hfailed]
      refine ⟨rfl, hwritten.trans ?_⟩
      cases (t.run s).result with
      | error e => rfl
      | ok a =>
        obtain ⟨more, hmore⟩ := (hf a).grows _ (ht.unlimited s hroom)
        show _ = (written ((f a).run (t.run s).state).state).take limit
        rw [← hmore, List.take_append_of_le_length (Nat.le_of_lt hfirst)]
    · -- with and without the limit, the first task has done the same, so the second exceeds it
      have hwithin := ht.within s hroom hfirst
      rw [Task.run_bind] at hover ⊢
      rw [Task.run_bind, hwithin]
      cases hresult : (t.run s).result with
      | error e =>
        rw [hresult] at hover
        exact absurd hfirst (Nat.not_le.2 hover)
      | ok a =>
        rw [hresult] at hover
        exact (hf a).beyond _ (ht.unlimited s hroom) hfirst hover

theorem MindsLimit.map (ht : MindsLimit limit t) (h : α → β) : MindsLimit limit (h <$> t) := by
  have hbind : MindsLimit limit (t >>= fun a => pure (h a)) := ht.bind fun a => mindsLimit_pure (h a)
  exact hbind

end

/-! ## In the scope of a rule -/

namespace Scope

variable {limit : Nat}

/-- Writing a line is where a limit is noticed. -/
theorem mindsLimit_emit (line : String) : MindsLimit limit (emit line) where
  unlimited s (hroom : s.output.room = none) := by
    rw [run_emit]
    change s.output.room.map _ = none
    rw [hroom]
    rfl
  grows s hroom := by
    rw [run_emit]
    exact ⟨_, (Sink.written_write_of_unlimited hroom _).symm⟩
  within s (hroom : s.output.room = none) hfits := by
    rw [run_emit] at hfits ⊢
    rw [run_emit]
    -- the line fits, with the limit as without
    obtain ⟨htakes, hwrite⟩ := Sink.write_limited_of_le hroom hfits
    have hfree : s.output.takes (Sink.lineBytes line) = true := by
      rw [Sink.takes, hroom]
    change Completed.mk _ { s with output := (s.output.limited limit).write _ }
      (if (s.output.limited limit).takes _ then _ else _) = _
    rw [htakes, hwrite, hfree]
    rfl
  beyond s (hroom : s.output.room = none) hfits hover := by
    rw [run_emit] at hover ⊢
    rw [run_emit]
    -- the line does not fit, and its beginning is kept
    obtain ⟨htakes, hwrite⟩ := Sink.write_limited_of_lt hroom hfits hover
    refine ⟨?_, hwrite⟩
    change (if (s.output.limited limit).takes _ then _ else _) = _
    rw [htakes]
    rfl

/-- No expression writes. -/
theorem mindsLimit_evaluate (e : Expression) : MindsLimit limit (evaluate e) := by
  cases e with
  | newRegister =>
    refine .get_bind (fun s => ?_) fun _ => rfl
    refine (mindsLimit_note _).bind fun _ => ?_
    refine MindsLimit.bind (mindsLimit_modify (fun _ => rfl) fun _ => rfl) fun _ => ?_
    exact mindsLimit_pure _
  | literal text => exact mindsLimit_pure text
  | read ref => exact .get_bind (fun s => mindsLimit_ofExcept _) fun _ => rfl

/-- An assignment changes attributes only. -/
theorem mindsLimit_assignTo (ref : AttributeRef) (value : String) :
    MindsLimit limit (assignTo ref value) := by
  refine .get_bind (fun s => ?_) fun _ => rfl
  cases s.rule.slot? ref.target with
  | none => exact mindsLimit_fail _
  | some slot =>
    refine mindsLimit_modify (fun s => ?_) fun s => ?_
    · cases slot <;> rfl
    · cases slot <;> rfl

/-- Guards and actions mind a limit, since only lines are written. -/
theorem composes_mindsLimit (limit : Nat) : Composes (MindsLimit limit) where
  nothing := mindsLimit_pure
  bind := MindsLimit.bind
  evaluate := mindsLimit_evaluate
  emit := mindsLimit_emit
  assignTo := mindsLimit_assignTo
  lhs := .get_bind (fun s => mindsLimit_pure s.lhs) fun _ => rfl

end Scope

/-- The output of a session is that of the scopes on top of it. -/
theorem output_of_scope {s : Session} {rule : Rule} {c : Scope} (h : s.scope rule = .ok c) :
    c.output = s.output := by
  obtain ⟨-, -, rfl⟩ := Session.scope_eq_ok_iff.1 h
  rfl

/-- The scope of a rule is set up without a look at the output, which it takes over with its
limit. -/
theorem scope_limited (limit : Nat) (s : Session) (rule : Rule) :
    (limited limit s).scope rule = (s.scope rule).map (limited limit) := by
  change Session.scope { s with output := s.output.limited limit } rule = _
  unfold Session.scope
  dsimp only
  split
  · rfl
  · unfold Scope.bind
    split
    · rfl
    · split <;> rfl

section

variable {α : Type} {limit : Nat} {task : Task Scope ParseError α}

/-- What minds a limit in a scope minds it on the session that the scope is made from, which begins
and ends with the same output. -/
theorem mindsLimit_inScope (ht : MindsLimit limit task) (rule : Rule) :
    MindsLimit limit (Session.inScope rule task) where
  unlimited s hroom := by
    rw [Session.run_inScope]
    cases hscope : s.scope rule with
    | error e => exact hroom
    | ok c => exact ht.unlimited c ((congrArg Sink.room (output_of_scope hscope)).trans hroom)
  grows s hroom := by
    rw [Session.run_inScope]
    cases hscope : s.scope rule with
    | error e => exact List.prefix_rfl
    | ok c =>
      have houtput := output_of_scope hscope
      have hgrows := ht.grows c ((congrArg Sink.room houtput).trans hroom)
      rw [show written c = written s from congrArg Sink.written houtput] at hgrows
      exact hgrows
  within s hroom hfits := by
    rw [Session.run_inScope] at hfits ⊢
    rw [Session.run_inScope, scope_limited]
    -- a scope that cannot be set up fails with the limit as well
    cases hscope : s.scope rule with
    | error e => rfl
    | ok c =>
      rw [hscope] at hfits
      have hwithin := ht.within c ((congrArg Sink.room (output_of_scope hscope)).trans hroom) hfits
      show Completed.mk (task.run (limited limit c)).events
        ((limited limit s).afterScope (task.run (limited limit c)).state)
        (task.run (limited limit c)).result = _
      rw [hwithin]
      rfl
  beyond s hroom hfits hover := by
    rw [Session.run_inScope] at hover ⊢
    rw [Session.run_inScope, scope_limited]
    cases hscope : s.scope rule with
    | error e =>
      rw [hscope] at hover
      exact absurd hfits (Nat.not_le.2 hover)
    | ok c =>
      rw [hscope] at hover
      have houtput := output_of_scope hscope
      rw [← show written c = written s from congrArg Sink.written houtput] at hfits
      exact ht.beyond c ((congrArg Sink.room houtput).trans hroom) hfits hover

end

/-! ## On a session -/

namespace Grammar

variable {limit : Nat}

theorem composes_mindsLimit (limit : Nat) : Session.Composes (MindsLimit limit) where
  nothing := mindsLimit_pure
  fail e _ := mindsLimit_fail e
  bind := MindsLimit.bind
  get_bind hf hsame := .get_bind hf fun s => hsame s _
  rearrange {h} hh := by
    refine mindsLimit_modify hh.output_eq fun s => ?_
    show h { s with output := s.output.limited limit } =
      { h s with output := (h s).output.limited limit }
    rw [hh.output_eq s]
    exact hh.output s _
  guard rule c := mindsLimit_inScope ((Scope.composes_mindsLimit limit).test c) rule
  action rule := mindsLimit_inScope ((Scope.composes_mindsLimit limit).act rule) rule
  guardTested _ _ _ := mindsLimit_note _
  reduced _ _ := mindsLimit_note _
  wentTo _ := mindsLimit_note _
  accepted := mindsLimit_note _

theorem mindsLimit_shift (state : Nat) (t : Terminal) : MindsLimit limit (shift state t) :=
  (mindsLimit_note _).bind fun _ => mindsLimit_modify (fun _ => rfl) fun _ => rfl

/-- What the source answers does not depend on the output. -/
theorem mindsLimit_pull (source : Source) : MindsLimit limit (Session.pull source) := by
  refine mindsLimit_of_silent (fun s => ?_) fun s => ?_
  · rw [run_pull]
    cases (source s.stats.terminals).item <;> rfl
  · have hstats : (limited limit s).stats = s.stats := rfl
    rw [run_pull, run_pull, hstats]
    cases (source s.stats.terminals).item <;> rfl

/-- A question is what is pulled, read as the terminal to be dealt with. -/
theorem mindsLimit_ask (source : Source) : MindsLimit limit (ask source) :=
  (mindsLimit_pull source).map _

/-- A step writes through the action of its rule, if it reduces, and not at all otherwise. -/
theorem mindsLimit_step (g : Grammar) (source : Source) (t : Terminal) :
    MindsLimit limit (g.step source t) := by
  refine .get_bind (fun s => ?_) fun _ => rfl
  refine (mindsLimit_note _).bind fun _ => ?_
  cases g.terminalId? t.name with
  | none => exact mindsLimit_fail _
  | some id =>
    exact (composes_mindsLimit limit).carryOut g source (mindsLimit_shift · t) (mindsLimit_ask source) _ _

end Grammar

/-! ## A parse with a limit beside one without -/

namespace Configuration

variable {limit : Nat} {g : Grammar} {source : Source} {c c' : Configuration}

/-- The first parse has no limit to its output.  The second one has, and is where the first one is as
long as what that one has written does not exceed the limit. -/
structure Truncates (limit : Nat) (c c' : Configuration) : Prop where
  unlimited : c.session.output.room = none
  within : c.written.length ≤ limit →
    c'.session = limited limit c.session ∧ c'.status = c.status
  beyond : limit < c.written.length →
    c'.status = .ended (.error (.broken Sink.refusal)) ∧ c'.written = c.written.take limit

/-- What has been written remains. -/
theorem written_isPrefix_next (g : Grammar) (source : Source) (hroom : c.session.output.room = none) :
    c.written <+: (next g source c).written := by
  cases hstatus : c.status with
  | ended r => rw [next_of_ended g source c r hstatus]
  | reading t =>
    rw [next_of_reading hstatus]
    have hstep : MindsLimit 0 (g.step source t) := Grammar.mindsLimit_step g source t
    exact hstep.grows c.session hroom

/-- A step puts no limit to an output that has none. -/
theorem unlimited_next (g : Grammar) (source : Source) (hroom : c.session.output.room = none) :
    (next g source c).session.output.room = none := by
  cases hstatus : c.status with
  | ended r =>
    rw [next_of_ended g source c r hstatus]
    exact hroom
  | reading t =>
    rw [next_of_reading hstatus]
    have hstep : MindsLimit 0 (g.step source t) := Grammar.mindsLimit_step g source t
    exact hstep.unlimited c.session hroom

/-- What two tasks have in common that differ in their limit only, the configurations behind them
have in common. -/
theorem truncates_after {task : Task Session ParseError Grammar.Progress} {s : Session}
    (ht : MindsLimit limit task) (hroom : s.output.room = none)
    (hfits : s.output.written.length ≤ limit) (log log' : List Event) :
    Truncates limit (after log (task.run s)) (after log' (task.run (limited limit s))) where
  unlimited := ht.unlimited s hroom
  within hle := by
    rw [ht.within s hroom hle]
    exact ⟨rfl, by rw [status_after, status_after]; cases (task.run s).result <;> rfl⟩
  beyond hlt := by
    obtain ⟨hfailed, hwritten⟩ := ht.beyond s hroom hfits hlt
    exact ⟨by rw [status_after, hfailed]; rfl, hwritten⟩

/-- The first question writes nothing, so no limit is exceeded by it. -/
theorem truncates_initial (limit : Nat) (source : Source) :
    Truncates limit (initial source {}) (initial source { room := some limit }) :=
  truncates_after (Grammar.mindsLimit_ask source) rfl (Nat.zero_le _) [] []

/-- If the limit has been exceeded, the second parse has ended and stays as it is. -/
theorem Truncates.next (h : Truncates limit c c') :
    Truncates limit (next g source c) (next g source c') := by
  rcases Nat.lt_or_ge limit c.written.length with hover | hfits
  · obtain ⟨hended, hwritten⟩ := h.beyond hover
    obtain ⟨more, hmore⟩ := written_isPrefix_next g source h.unlimited
    have hover' : limit < (Configuration.next g source c).written.length := by
      rw [← hmore, List.length_append]
      exact Nat.lt_add_right _ hover
    rw [next_of_ended g source c' _ hended]
    refine ⟨unlimited_next g source h.unlimited, fun hle => ?_, fun _ => ⟨hended, ?_⟩⟩
    · exact absurd hover' (Nat.not_lt.2 hle)
    · rw [hwritten, ← hmore, List.take_append_of_le_length (Nat.le_of_lt hover)]
  · obtain ⟨hsession, hstatus⟩ := h.within hfits
    cases hc : c.status with
    | ended r =>
      rw [next_of_ended g source c r hc, next_of_ended g source c' r (hstatus.trans hc)]
      exact h
    | reading t =>
      rw [next_of_reading hc, next_of_reading (hstatus.trans hc), hsession]
      exact truncates_after (Grammar.mindsLimit_step g source t) h.unlimited hfits _ _

end Configuration

namespace Grammar

variable {g : Grammar} {source : Source}

/-- Step by step, the parse with a limit is where the other one is, or has ended. -/
theorem truncates_parse (g : Grammar) (source : Source) (limit n : Nat) :
    Configuration.Truncates limit (g.parse source {} n)
      (g.parse source { room := some limit } n) := by
  induction n with
  | zero => exact Configuration.truncates_initial limit source
  | succ n ih =>
    rw [parse_succ, parse_succ]
    exact ih.next

/-- What a parse does whose output has a limit, if the parse without a limit ends.  If all that this one
has written is within the limit, then the other one ends with the same result, and has written the same.
If not, then it ends with the refusal of the sink, and has written as much of it as the limit allows. -/
theorem parse_into_bounded_sink (g : Grammar) (source : Source) (limit n : Nat)
    (r : Except ParseError Stats) (hended : (g.parse source {} n).result? = some r) :
    ((g.parse source {} n).written.length ≤ limit →
      (g.parse source { room := some limit } n).result? = some r ∧
        (g.parse source { room := some limit } n).written = (g.parse source {} n).written) ∧
    (limit < (g.parse source {} n).written.length →
      (g.parse source { room := some limit } n).result? =
          some (.error (.broken Sink.refusal)) ∧
        (g.parse source { room := some limit } n).written =
          (g.parse source {} n).written.take limit) := by
  have htruncates := truncates_parse g source limit n
  constructor
  · intro hle
    obtain ⟨hsession, hstatus⟩ := htruncates.within hle
    refine ⟨?_, congrArg written hsession⟩
    rw [Configuration.result?_eq_some_iff, hstatus]
    exact Configuration.result?_eq_some_iff.1 hended
  · intro hlt
    obtain ⟨hstatus, hwritten⟩ := htruncates.beyond hlt
    exact ⟨Configuration.result?_eq_some_iff.2 hstatus, hwritten⟩

/-- Two pairs of brackets write two lines of six bytes.  Both are written where there is room for twelve
bytes; if there is room for nine, then the second one is broken off in the middle. -/
theorem parse_nested_into_bounded_sink : ∃ g, (build nested).result = .ok g ∧
    (g.parse (.ofList (twoPairs.map .ok)) { room := some 12 } 8).result? =
      some (.ok { terminals := 5, shifts := 4, reductions := 3, guards := 2 }) ∧
    (g.parse (.ofList (twoPairs.map .ok)) { room := some 9 } 8).result? =
      some (.error (.broken Sink.refusal)) ∧
    (g.parse (.ofList (twoPairs.map .ok)) { room := some 9 } 8).written =
      Sink.lineBytes "inner" ++ "out".toUTF8.data.toList := by
  have hrun : (build nested).result.map (fun g =>
      ((g.parse (.ofList (twoPairs.map .ok)) {} 8).result?,
        (g.parse (.ofList (twoPairs.map .ok)) {} 8).written)) =
      .ok (some (.ok { terminals := 5, shifts := 4, reductions := 3, guards := 2 }),
        Sink.lineBytes "inner" ++ Sink.lineBytes "outer") := by
    decide +kernel
  obtain ⟨g, hg, hparse⟩ := exists_of_map_eq_ok hrun
  obtain ⟨hok, hwritten⟩ := Prod.mk.inj hparse
  have hall := parse_into_bounded_sink g (.ofList (twoPairs.map .ok)) 12 8 _ hok
  have hpart := parse_into_bounded_sink g (.ofList (twoPairs.map .ok)) 9 8 _ hok
  rw [hwritten] at hall hpart
  have htaken : (Sink.lineBytes "inner" ++ Sink.lineBytes "outer").take 9 =
      Sink.lineBytes "inner" ++ "out".toUTF8.data.toList := by
    decide +kernel
  rw [htaken] at hpart
  obtain ⟨hresult, -⟩ := hall.1 (by decide +kernel)
  obtain ⟨hrefused, hbroken⟩ := hpart.2 (by decide +kernel)
  exact ⟨g, hg, hresult, hrefused, hbroken⟩

end Grammar

end GuardedGrammar
