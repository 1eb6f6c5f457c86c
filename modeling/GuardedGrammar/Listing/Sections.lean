/-
  What there is to see of a grammar.

  A listing has four sections: the rules, the FIRST and FOLLOW sets, the states with their items, and
  the table of actions.  Each line of the first three begins with a letter or a word that says what it
  lists.  The start symbol is not a column of the table, since nothing ever leads to it.
-/
import GuardedGrammar.Grammar.Basic
import GuardedGrammar.Listing.Box

namespace GuardedGrammar.Listing

/-! ## Rules -/

/-- A rule by its two sides, with marks for a guard and an action. -/
def ruleLine (index : Nat) (r : Rule) : String :=
  "R," ++ toString index ++ "," ++ r.renderSides
    ++ (if r.condition.isSome then " [?]" else "")
    ++ (if r.action.isSome then " \x7b!\x7d" else "")
    ++ "\n"

/-- The number of rules, and the rules. -/
def rules (g : Grammar) : String :=
  "RS," ++ toString g.rules.length ++ "\n\n"
    ++ String.join (g.rules.zipIdx.map fun (r, i) => ruleLine i r)

/-! ## FIRST and FOLLOW -/

/-- A set of terminals under a label; a symbol that can vanish has the empty text first. -/
def setLine (a : Automaton) (label : String) (symbol : Nat) (set : SortedSet Nat)
    (nullable : Bool) : String :=
  label ++ "," ++ a.nameOf symbol ++ ",\x7b" ++ (if nullable then "`empty', " else "")
    ++ String.join (set.toList.map fun t => a.nameOf t ++ ", ") ++ "\x7d\n"

/-- The FIRST sets of all symbols, and the FOLLOW sets of the nonterminals. -/
def firstFollow (g : Grammar) : String :=
  String.join (g.first.first.zipIdx.map fun (set, s) =>
      setLine g.automaton "FIRST" s set (g.first.isNullable s))
    ++ "\n"
    ++ String.join (g.automaton.follow.zipIdx.map fun (set, s) =>
      setLine g.automaton "FOLLOW" s set false)

/-! ## States -/

/-- The right-hand side of a production, with the dot of an item at its place. -/
def dotted (a : Automaton) (rhs : List Nat) (dot : Nat) : String :=
  String.join (rhs.zipIdx.map fun (s, i) => (if i = dot then " ." else "") ++ " " ++ a.nameOf s)
    ++ (if rhs.length = dot then " ." else "")

/-- An item of a state. -/
def itemLine (a : Automaton) (state : Nat) (item : Item) : String :=
  let rhs := (a.productions[item.production]?.map (·.rhs)).getD []
  "C," ++ toString state ++ "," ++ a.nameOf (a.lhsOf item.production) ++ " ->"
    ++ dotted a rhs item.dot ++ "\n"

/-- The number of states, and the items of each. -/
def states (g : Grammar) : String :=
  "CS," ++ toString g.states.length ++ "\n\n"
    ++ String.join (g.states.zipIdx.map fun (items, i) =>
      String.join (items.toList.map (itemLine g.automaton i)) ++ "\n")

/-! ## The table -/

/-- The numbers of the terminals and of the nonterminals that have a column. -/
def terminalIds (g : Grammar) : List Nat :=
  (List.range g.names.size).drop g.automaton.nonterminals

/-- All nonterminals but the start symbol, which nothing leads to. -/
def nonterminalIds (g : Grammar) : List Nat := (List.range g.automaton.nonterminals).drop 1

/-- The names over the columns. -/
def header (g : Grammar) : List String :=
  "" :: (terminalIds g ++ nonterminalIds g).map g.automaton.nameOf

/-- A cell of the table; the actions that guards decide between are separated by strokes. -/
def cellText (c : Cell) : String := String.intercalate "/" (c.map Action.render)

/-- Where to go from a state with a nonterminal, if anywhere. -/
def gotoText (target : Option Nat) : String :=
  match target with
  | some state => toString state
  | none => ""

/-- The row of a state. -/
def tableRow (g : Grammar) (state : Nat) : List String :=
  toString state :: ((terminalIds g).map fun t => cellText (g.cell state t))
    ++ (nonterminalIds g).map fun n => gotoText (g.tables.goto? state n)

/-- The table of actions. -/
def tables (g : Grammar) : String :=
  Box.draw (header g :: (List.range g.states.length).map (tableRow g))

/-! ## All sections -/

/-- Everything there is to see of a grammar. -/
def all (g : Grammar) : String :=
  rules g ++ "\n" ++ firstFollow g ++ "\n" ++ states g ++ tables g

end GuardedGrammar.Listing
