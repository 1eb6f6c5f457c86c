/-
  From rules to a grammar.

  The start rule is put in front, the symbols are numbered (first the names of left-hand sides in the
  order in which they come, then the other names of right-hand sides, and the end marker), and the
  automaton and its tables are worked out for the numbered rules.
-/
import GuardedGrammar.Grammar.Basic

namespace GuardedGrammar

namespace Rule

/-- The symbols of a rule in reading order. -/
def symbols (r : Rule) : List Symbol := r.lhs :: r.rhs

/-- The rule that derives a name from the start symbol. -/
def start (name : String) : Rule where
  lhs := { name := startName }
  rhs := [{ name := name }]

/-- A rule in numbers. -/
def encode (names : SymbolTable) (r : Rule) : Production where
  lhs := names.idOf r.lhs.name
  rhs := r.rhs.map fun s => names.idOf s.name
  guarded := r.isGuarded

end Rule

namespace Grammar

/-- Whether a name stands for the start symbol or the end of the input. -/
def isReserved (name : String) : Bool := name == startName || name == endName

/-- The first reserved name in a list of rules, in reading order. -/
def reserved? (rules : List Rule) : Option String :=
  (rules.flatMap Rule.symbols).map Symbol.name |>.find? isReserved

/-- The names of the left-hand sides, numbered. -/
def nonterminalTable (rules : List Rule) : SymbolTable :=
  SymbolTable.addAll ∅ (rules.map (·.lhs.name))

/-- The names of all symbols, numbered. -/
def symbolTable (rules : List Rule) : SymbolTable :=
  ((nonterminalTable rules).addAll (rules.flatMap fun r => r.rhs.map Symbol.name)).add endName

/-- The left-hand side of the start production. -/
def startSymbol (productions : List Production) : Nat :=
  (productions[startProduction]?.map (·.lhs)).getD 0

/-- The grammar of rules of which the first is the start rule. -/
def assemble (rules : List Rule) : Traced BuildError Grammar := do
  let names := symbolTable rules
  let nonterminals := (nonterminalTable rules).size
  let productions := rules.map (Rule.encode names)
  let (first, firstPasses) := FirstSets.settled productions nonterminals names.size
  Traced.note (.firstSettled firstPasses)
  let (follow, followPasses) :=
    FollowSets.settled productions nonterminals (startSymbol productions) (names.size - 1) first
  Traced.note (.followSettled followPasses)
  let states := collection productions nonterminals names.size
  let automaton : Automaton := ⟨productions, names, nonterminals, follow, states⟩
  let tables ← automaton.tables
  Traced.ofExcept (automaton.validate (tables.map (·.actions)))
  Traced.note (.grammarBuilt rules.length automaton.terminals nonterminals states.length)
  pure ⟨rules, first, automaton, tables⟩

/-- The grammar of a list of rules; the left-hand side of the first is what inputs are derived from. -/
def build (rules : List Rule) : Traced BuildError Grammar :=
  match rules with
  | [] => .fail .emptyGrammar
  | first :: _ =>
    match reserved? rules with
    | some name => .fail (.reservedSymbol name)
    | none => assemble (Rule.start first.lhs.name :: rules)

end Grammar

end GuardedGrammar
