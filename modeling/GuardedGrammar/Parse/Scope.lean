/-
  What a rule sees of the stack.

  When a rule is applied, its right-hand side is bound to the entries that are put together, and its
  left-hand side to attributes that are yet to be given.  A target in the guard or the action of the
  rule means one of these occurrences: a name means the left-hand side if that has the name, and
  otherwise the leftmost symbol of the right-hand side that has it; an index likewise.

  Guards and actions are carried out in such a scope.  What they have done before an error is not
  undone.
-/
import GuardedGrammar.Journal.Task
import GuardedGrammar.Parse.Error
import GuardedGrammar.Parse.Sink

namespace GuardedGrammar

/-! ## Occurrences -/

/-- An occurrence of a symbol in a rule. -/
inductive Slot where
  | lhs
  | rhs (position : Nat)
deriving DecidableEq, Repr

namespace Symbol

/-- Whether a target can mean an occurrence of the symbol. -/
def answers (s : Symbol) : Target → Bool
  | .named name => s.name == name
  | .numbered index => s.index == some index

end Symbol

/-- The occurrence that a target means in a rule. -/
def Rule.slot? (r : Rule) (t : Target) : Option Slot :=
  if r.lhs.answers t then some .lhs else (r.rhs.findIdx? (·.answers t)).map .rhs

/-! ## Binding -/

/-- A rule with what its occurrences are bound to, the number of the next register, and the output. -/
structure Scope where
  rule : Rule
  lhs : Attributes := ∅
  entries : List StackEntry
  registers : Nat := 0
  output : Sink := {}
deriving DecidableEq

namespace Scope

/-- The first entry that does not hold the symbol of the right-hand side, and that symbol. -/
def mismatch? : List Symbol → List StackEntry → Option (String × String)
  | s :: rhs, e :: entries =>
    if s.name = e.symbol then mismatch? rhs entries else some (e.symbol, s.name)
  | _, _ => none

/-- Binds a rule to entries, which have to hold the symbols of its right-hand side in order. -/
def bind (rule : Rule) (entries : List StackEntry) (registers : Nat) (output : Sink) :
    Except Inconsistency Scope :=
  if entries.length ≠ rule.rhs.length then .error (.wrongHeight rule entries.length)
  else
    match mismatch? rule.rhs entries with
    | some (found, expected) => .error (.wrongSymbol rule found expected)
    | none => .ok { rule, entries, registers, output }

/-! ## Attributes -/

/-- The attributes of an occurrence. -/
def attributes (s : Scope) : Slot → Attributes
  | .lhs => s.lhs
  | .rhs k => (s.entries[k]?.map (·.attributes)).getD ∅

/-- Gives an attribute of an occurrence a value. -/
def assign (s : Scope) (slot : Slot) (name value : String) : Scope :=
  match slot with
  | .lhs => { s with lhs := s.lhs.insert name value }
  | .rhs k =>
    { s with entries :=
        s.entries.modify k fun e => { e with attributes := e.attributes.insert name value } }

/-- The value of an attribute. -/
def read (s : Scope) (ref : AttributeRef) : Except ParseError String :=
  match s.rule.slot? ref.target with
  | none => .error (.unboundTarget ref.target)
  | some slot =>
    match (s.attributes slot).get? ref.name with
    | none => .error (.missingAttribute ref)
    | some value => .ok value

/-! ## Guards and actions -/

/-- The number of a register that nothing has used yet. -/
def newRegister : Task Scope ParseError String := do
  let s ← Task.get
  Task.note (.registerIssued s.registers)
  Task.modify fun s => { s with registers := s.registers + 1 }
  pure (toString s.registers)

/-- The value of an expression. -/
def evaluate : Expression → Task Scope ParseError String
  | .newRegister => newRegister
  | .literal text => pure text
  | .read ref => do Task.ofExcept ((← Task.get).read ref)

/-- The values of expressions, written one after the other. -/
def evaluateAll : List Expression → Task Scope ParseError String
  | [] => pure ""
  | e :: rest => do
    let first ← evaluate e
    let others ← evaluateAll rest
    pure (first ++ others)

/-- Whether a guard holds; its left side is evaluated first. -/
def test (c : Condition) : Task Scope ParseError Bool := do
  let left ← evaluate c.left
  let right ← evaluate c.right
  pure (left == right)

/-- Writes a line. -/
def emit (line : String) : Task Scope ParseError Unit := do
  Task.note (.emitted line)
  let bytes := Sink.lineBytes line
  let fits := (← Task.get).output.takes bytes
  Task.modify fun s => { s with output := s.output.write bytes }
  if fits then pure () else Task.fail (.broken Sink.refusal)

/-- Gives an attribute a value. -/
def assignTo (ref : AttributeRef) (value : String) : Task Scope ParseError Unit := do
  match (← Task.get).rule.slot? ref.target with
  | none => Task.fail (.unboundTarget ref.target)
  | some slot => Task.modify fun s => s.assign slot ref.name value

/-- Carries a statement out. -/
def perform : Statement → Task Scope ParseError Unit
  | .emit parts => do
    let line ← evaluateAll parts
    emit line
  | .assign destination value => do
    let value ← evaluate value
    assignTo destination value

/-- Carries the statements of an action out, one after the other. -/
def execute : List Statement → Task Scope ParseError Unit
  | [] => pure ()
  | s :: rest => do
    perform s
    execute rest

end Scope

end GuardedGrammar
