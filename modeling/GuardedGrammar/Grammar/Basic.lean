/-
  Grammars that are ready to parse.

  A grammar is a list of rules together with what has been found out about them: the numbering of the
  symbols, the FIRST and FOLLOW sets, the states of the automaton and its tables.  Rule 0 is the start
  rule, which derives the left-hand side of the first rule that was given.  Names that occur as a
  left-hand side are nonterminals and come first; all others are terminals, and the end marker is the
  last of them.

  Looking something up under a name or a number that does not exist gives nothing.
-/
import GuardedGrammar.Table.Construction

namespace GuardedGrammar

/-- The name of the symbol that every derivation starts from. -/
def startName : String := "$START$"

/-- The name of the terminal that ends every input. -/
def endName : String := "$"

/-- How the empty text is shown in a FIRST set. -/
def emptyName : String := ""

/-- A grammar with its tables. -/
structure Grammar where
  rules : List Rule
  first : FirstSets
  automaton : Automaton
  tables : Tables
deriving DecidableEq

namespace Grammar

/-- The names of all symbols, by number. -/
def names (g : Grammar) : SymbolTable := g.automaton.names

/-- The names of the nonterminals, by number. -/
def nonterminals (g : Grammar) : List String := g.names.names.take g.automaton.nonterminals

/-- The names of the terminals, by number; the end marker is last. -/
def terminals (g : Grammar) : List String := g.names.names.drop g.automaton.nonterminals

/-- The states, by number. -/
def states (g : Grammar) : List ItemSet := g.automaton.states

/-- The number of a terminal. -/
def terminalId? (g : Grammar) (name : String) : Option Nat :=
  (g.names.id? name).filter (g.automaton.nonterminals ≤ ·)

/-- The number of a nonterminal. -/
def nonterminalId? (g : Grammar) (name : String) : Option Nat :=
  (g.names.id? name).filter (· < g.automaton.nonterminals)

/-- The names of a set of symbols, in the order of their numbers. -/
def namesOf (g : Grammar) (symbols : SortedSet Nat) : List String :=
  symbols.toList.filterMap g.names.name?

/-- What a symbol can begin with; the empty text comes last if the symbol can vanish. -/
def first? (g : Grammar) (name : String) : Option (List String) :=
  (g.names.id? name).map fun id =>
    g.namesOf (g.first.of id) ++ if g.first.isNullable id then [emptyName] else []

/-- What can come after a nonterminal. -/
def follow? (g : Grammar) (name : String) : Option (List String) :=
  (g.nonterminalId? name).map fun id => g.namesOf (FollowSets.of g.automaton.follow id)

/-- The actions in a state for the terminal of a number. -/
def cell (g : Grammar) (state terminal : Nat) : Cell :=
  g.tables.cell state (g.automaton.column terminal)

/-- The actions in a state for a terminal. -/
def actions (g : Grammar) (state : Nat) (terminal : String) : Cell :=
  match g.terminalId? terminal with
  | some id => g.cell state id
  | none => []

/-- Where to go from a state with a nonterminal. -/
def goto? (g : Grammar) (state : Nat) (nonterminal : String) : Option Nat :=
  (g.nonterminalId? nonterminal).bind (g.tables.goto? state)

end Grammar

end GuardedGrammar
