/-
  The states of the automaton.

  A state is a set of items that is closed: with an item that waits for a nonterminal it holds all
  productions of that nonterminal from their beginning.  Reading a symbol leads from a state to the
  closure of its items that wait for the symbol, moved past it.  The collection lists the states that
  are reached from the start, each once, in the order in which they are found: states are explored
  in the order of the list, and each with the symbols in ascending order.

  The exploration is given more fuel than there are sets of items to find.
-/
import GuardedGrammar.Automaton.Production
import GuardedGrammar.Settle

namespace GuardedGrammar

/-! ## Closure -/

/-- The nonterminals that the items wait for. -/
def awaited (productions : List Production) (nonterminals : Nat) (items : ItemSet) : List Nat :=
  (items.toList.filterMap (Item.observed? productions)).filter (· < nonterminals)

/-- The productions of the given nonterminals, from their beginning. -/
def openings (productions : List Production) (symbols : List Nat) : List Item :=
  productions.zipIdx.filterMap fun (p, i) => if symbols.contains p.lhs then some ⟨i, 0⟩ else none

/-- Adds the productions of all nonterminals that the items wait for. -/
def closeOnce (productions : List Production) (nonterminals : Nat) (items : ItemSet) : ItemSet :=
  items.insertAll (openings productions (awaited productions nonterminals items))

/-- Adds an item, and notes if it is new. -/
def addNoting (noted : Bool × ItemSet) (x : Item) : Bool × ItemSet :=
  (noted.1 || !decide (x ∈ noted.2), noted.2.insert x)

/-- The productions that one item waits for, from their beginning. -/
def openedBy (productions : List Production) (nonterminals : Nat) (i : Item) : List Item :=
  openings productions ((i.observed? productions).filter (· < nonterminals)).toList

/-- One round over the items that are there before it, with whether it has added anything. -/
def closeNoting (productions : List Production) (nonterminals : Nat) (items : ItemSet) :
    Bool × ItemSet :=
  (items.toList.flatMap (openedBy productions nonterminals)).foldl addNoting (false, items)

/-- The closure of a set of items.  Every round but the last adds the beginning of a production, so
one round more than there are productions is enough. -/
def closure (productions : List Production) (nonterminals : Nat) (items : ItemSet) : ItemSet :=
  (settle (closeOnce productions nonterminals) (productions.length + 1) 1 items).1

/-! ## Reading a symbol -/

/-- The items that wait for a symbol, moved past it. -/
def moved (productions : List Production) (items : ItemSet) (symbol : Nat) : ItemSet :=
  .ofList ((items.toList.filter fun i => i.observed? productions == some symbol).map Item.advance)

/-- The state that reading a symbol leads to; it is empty if no item waits for the symbol. -/
def successor (productions : List Production) (nonterminals : Nat) (items : ItemSet)
    (symbol : Nat) : ItemSet :=
  closure productions nonterminals (moved productions items symbol)

/-! ## The collection -/

/-- The state before anything has been read. -/
def startState (productions : List Production) (nonterminals : Nat) : ItemSet :=
  closure productions nonterminals {⟨startProduction, 0⟩}

/-- Adds a state at the end of a list unless it is empty or listed already. -/
def enlist (states : List ItemSet) (s : ItemSet) : List ItemSet :=
  if s.isEmpty || states.contains s then states else states ++ [s]

/-- The states that reading a symbol in `s` leads to, added to the list. -/
def enlistSuccessors (productions : List Production) (nonterminals symbols : Nat)
    (states : List ItemSet) (s : ItemSet) : List ItemSet :=
  (List.range symbols).foldl
    (fun states symbol => enlist states (successor productions nonterminals s symbol)) states

/-- Explores the states from position `next` of the list on. -/
def explore (productions : List Production) (nonterminals symbols : Nat) :
    (fuel next : Nat) → List ItemSet → List ItemSet
  | 0, _, states => states
  | fuel + 1, next, states =>
    match states[next]? with
    | none => states
    | some s =>
      explore productions nonterminals symbols fuel (next + 1)
        (enlistSuccessors productions nonterminals symbols states s)

/-- How many items there are with the dot anywhere in a production. -/
def itemCount (productions : List Production) : Nat :=
  productions.foldr (fun p count => p.rhs.length + 1 + count) 0

/-- The states of the automaton, in the order in which they are found. -/
def collection (productions : List Production) (nonterminals symbols : Nat) : List ItemSet :=
  explore productions nonterminals symbols (Nat.pow 2 (itemCount productions) + 1) 0
    [startState productions nonterminals]

end GuardedGrammar
