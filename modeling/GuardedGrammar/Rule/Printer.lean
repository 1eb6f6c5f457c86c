/-
  Rules as they are written.

  This is the notation that rule files use, with two differences: literals are quoted, so a hidden
  character appears by its number, and the statements of an action stand on one line with semicolons
  between them.
-/
import GuardedGrammar.Rule.Basic
import GuardedGrammar.Text.Quoted

namespace GuardedGrammar

def Symbol.render (s : Symbol) : String :=
  match s.index with
  | some index => s.name ++ "$" ++ toString index
  | none => s.name

def Target.render : Target → String
  | .named name => name
  | .numbered index => "$" ++ toString index

def AttributeRef.render (r : AttributeRef) : String :=
  r.target.render ++ "." ++ r.name

def Expression.render : Expression → String
  | .newRegister => "<newReg>"
  | .literal text => Text.quoted text
  | .read ref => ref.render

def Statement.render : Statement → String
  | .emit parts => "emit" ++ String.join (parts.map fun p => " " ++ p.render)
  | .assign destination value => destination.render ++ " = " ++ value.render

def Condition.render (c : Condition) : String :=
  c.left.render ++ " = " ++ c.right.render

/-- The two sides of a rule without its guard and its action. -/
def Rule.renderSides (r : Rule) : String :=
  r.lhs.render ++ " ->" ++ String.join (r.rhs.map fun s => " " ++ s.render)

def Rule.render (r : Rule) : String :=
  let condition := match r.condition with
    | some c => " [" ++ c.render ++ "]"
    | none => ""
  let action := match r.action with
    | some statements => " \x7b" ++ String.intercalate "; " (statements.map (·.render)) ++ "\x7d"
    | none => ""
  r.renderSides ++ condition ++ action

end GuardedGrammar
