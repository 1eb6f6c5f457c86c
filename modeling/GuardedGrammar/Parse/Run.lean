/-
  A parse from beginning to end.

  A configuration is a session together with what is to be done next: deal with a terminal, or nothing,
  because the parse has ended.  A parse is the sequence of configurations that steps lead through.  A
  grammar whose rules derive a symbol from itself, or nothing from nothing, may go on for ever, so a
  parse is run for a given number of steps.

  Main statements: `run_add`, running is running on, and `run_of_ended`, a parse that has ended stays
  as it is.
-/
import GuardedGrammar.Parse.Step

namespace GuardedGrammar

/-- Whether a parse goes on. -/
inductive Status where
  /-- The terminal is to be dealt with. -/
  | reading (t : Terminal)
  /-- The parse has ended. -/
  | ended (result : Except ParseError Stats)

/-- Where a parse is: its session, what has happened, latest first, and whether it goes on. -/
structure Configuration where
  session : Session
  log : List Event := []
  status : Status

namespace Configuration

/-- The configuration that a step leads to. -/
def after (log : List Event) (done : Completed Session ParseError Grammar.Progress) :
    Configuration where
  session := done.state
  log := done.events.reverse ++ log
  status :=
    match done.result with
    | .ok (.reading t) => .reading t
    | .ok .accepted => .ended (.ok done.state.stats)
    | .error e => .ended (.error e)

/-- The first configuration of a parse: the first terminal has been asked for. -/
def initial (source : Source) (output : Sink) : Configuration :=
  after [] ((Grammar.Progress.reading <$> Session.pull source).run (.initial output))

/-- One step; a parse that has ended stays as it is. -/
def next (g : Grammar) (source : Source) (c : Configuration) : Configuration :=
  match c.status with
  | .ended _ => c
  | .reading t => after c.log ((g.step source t).run c.session)

/-- As many steps as given, or until the parse has ended. -/
def run (g : Grammar) (source : Source) : Nat → Configuration → Configuration
  | 0, c => c
  | n + 1, c =>
    match c.status with
    | .ended _ => c
    | .reading _ => run g source n (next g source c)

/-- The result of a parse that has ended. -/
def result? (c : Configuration) : Option (Except ParseError Stats) :=
  match c.status with
  | .ended r => some r
  | .reading _ => none

/-- What has happened, in order. -/
def events (c : Configuration) : List Event := c.log.reverse

/-- What has been written. -/
def written (c : Configuration) : List UInt8 := c.session.output.written

/-- A parse that has ended stays as it is. -/
theorem run_of_ended (g : Grammar) (source : Source) (n : Nat) (c : Configuration)
    (r : Except ParseError Stats) (h : c.status = .ended r) : run g source n c = c := by
  cases n with
  | zero => rfl
  | succ n => simp [run, h]

/-- A parse that has ended makes no more steps. -/
theorem next_of_ended (g : Grammar) (source : Source) (c : Configuration)
    (r : Except ParseError Stats) (h : c.status = .ended r) : next g source c = c := by
  simp [next, h]

/-- A run of one step more begins with that step. -/
theorem run_succ (g : Grammar) (source : Source) (n : Nat) (c : Configuration) :
    run g source (n + 1) c = run g source n (next g source c) := by
  cases h : c.status with
  | ended r => rw [next_of_ended g source c r h, run_of_ended _ _ _ _ r h, run_of_ended _ _ _ _ r h]
  | reading t => simp [run, h]

/-- Running is running on. -/
theorem run_add (g : Grammar) (source : Source) (m n : Nat) (c : Configuration) :
    run g source (m + n) c = run g source n (run g source m c) := by
  induction m generalizing c with
  | zero => simp [run]
  | succ m ih => rw [Nat.add_right_comm, run_succ, run_succ, ih]

end Configuration

namespace Grammar

/-- Parses what a source gives, writing to `output`, for at most the given number of steps. -/
def parse (g : Grammar) (source : Source) (output : Sink) (steps : Nat) : Configuration :=
  (Configuration.initial source output).run g source steps

end Grammar

end GuardedGrammar
