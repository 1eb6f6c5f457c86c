/-
  What happens while texts are read, grammars are built and inputs are parsed.

  The parts of the library report their steps as events, in the order in which they happen.  An event
  is shown as a line that begins with its level.  The numbers given to registers are events that are
  not shown; they are kept so that one can say how registers are numbered over a whole parse.
-/
import GuardedGrammar.Lexer.Basic
import GuardedGrammar.Rule.Printer
import GuardedGrammar.Stack

namespace GuardedGrammar

/-- What a step of the library reports. -/
inductive Event where
  /-- A lexer has matched a text. -/
  | matched (m : Matched)
  /-- A rule has been read, and the token behind it. -/
  | ruleRead (rule : Rule)
  /-- The FIRST sets are complete. -/
  | firstSettled (passes : Nat)
  /-- The FOLLOW sets are complete. -/
  | followSettled (passes : Nat)
  /-- A reduction has taken the place of another in a cell of the table. -/
  | reductionReplaced (new old : Nat)
  /-- A grammar has been built. -/
  | grammarBuilt (rules terminals nonterminals states : Nat)
  /-- A step of a parse begins, with this stack and this terminal. -/
  | stepBegun (stack : List StackEntry) (incoming : String)
  /-- The terminal is pushed with the state. -/
  | shifted (state : Nat)
  /-- The parse is complete. -/
  | accepted
  /-- A guard has been tested. -/
  | guardTested (rule : Nat) (condition : Condition) (holds : Bool)
  /-- A rule is about to be reduced. -/
  | reduced (index : Nat) (rule : Rule)
  /-- The left-hand side is pushed with the state. -/
  | wentTo (state : Nat)
  /-- A line is about to be written. -/
  | emitted (line : String)
  /-- A register has been given out. -/
  | registerIssued (register : Nat)
deriving DecidableEq, Repr

namespace Event

/-- The stack as it is shown, bottom first. -/
def renderStack (stack : List StackEntry) : String :=
  String.join (stack.reverse.map fun entry => entry.render ++ "  ")

/-- The line that shows an event, if it is shown. -/
def render? : Event → Option String
  | matched m =>
    some ("TRACE MATCHED: rule=" ++ toString m.rule ++ ", at " ++ m.location.describe ++ ", text="
      ++ Text.quoted (String.ofList m.text))
  | ruleRead rule => some ("TRACE RULE: " ++ rule.render)
  | firstSettled passes => some ("TRACE FIRST sets stable after " ++ toString passes ++ " passes")
  | followSettled passes => some ("TRACE FOLLOW sets stable after " ++ toString passes ++ " passes")
  | reductionReplaced new old =>
    some ("TRACE r" ++ toString new ++ " replaces r" ++ toString old)
  | grammarBuilt rules terminals nonterminals states =>
    some ("DEBUG grammar built: " ++ toString rules ++ " rules, " ++ toString terminals
      ++ " terminals, " ++ toString nonterminals ++ " nonterminals, " ++ toString states ++ " states")
  | stepBegun stack incoming =>
    some ("TRACE " ++ renderStack stack ++ "<-  " ++ incoming)
  | shifted state => some ("TRACE Shift " ++ toString state)
  | accepted => some "TRACE Accept"
  | guardTested rule condition holds =>
    some ("TRACE Guard r" ++ toString rule ++ " [" ++ condition.render ++ "]: " ++ toString holds)
  | reduced index rule => some ("TRACE Reduce r" ++ toString index ++ ": " ++ rule.render)
  | wentTo state => some ("TRACE Goto " ++ toString state)
  | emitted line => some ("DEBUG EMIT: " ++ line)
  | registerIssued _ => none

end Event

end GuardedGrammar
