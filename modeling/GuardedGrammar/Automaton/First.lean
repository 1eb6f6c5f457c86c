/-
  How sentences can begin.

  For each symbol, FIRST holds the terminals that a sentence derived from it can begin with, and a
  flag says whether the empty sentence can be derived from it.  Both start from what the terminals
  say and grow in passes over the productions, each production using what the ones before it in the
  same pass have added, until a pass adds nothing.
-/
import GuardedGrammar.Automaton.Production
import GuardedGrammar.Settle

namespace GuardedGrammar

/-- Adds a member to one of several sets, and notes if it is new. -/
def insertNoting (place : Nat) (noted : Bool × List (SortedSet Nat)) (t : Nat) :
    Bool × List (SortedSet Nat) :=
  (noted.1 || !decide (t ∈ noted.2.getD place ∅), noted.2.modify place (·.insert t))

/-- The FIRST set of each symbol, and whether the symbol can vanish. -/
structure FirstSets where
  first : List (SortedSet Nat)
  nullable : List Bool
deriving DecidableEq

namespace FirstSets

/-- A terminal begins with itself; nothing is known of a nonterminal. -/
def initial (nonterminals symbols : Nat) : FirstSets where
  first := (List.range symbols).map fun s => if s < nonterminals then ∅ else {s}
  nullable := List.replicate symbols false

/-- The FIRST set of a symbol. -/
def of (f : FirstSets) (symbol : Nat) : SortedSet Nat := f.first.getD symbol ∅

/-- Whether the empty sentence can be derived from a symbol. -/
def isNullable (f : FirstSets) (symbol : Nat) : Bool := f.nullable.getD symbol false

/-- How a row of symbols can begin, and whether all of it can vanish. -/
def ofSentence (f : FirstSets) : List Nat → SortedSet Nat × Bool
  | [] => (∅, true)
  | s :: rest =>
    if f.isNullable s then
      let (first, nullable) := f.ofSentence rest
      (f.of s ∪ first, nullable)
    else (f.of s, false)

/-- Adds what a production says about its left-hand side. -/
def absorb (f : FirstSets) (p : Production) : FirstSets :=
  let (first, nullable) := f.ofSentence p.rhs
  { first := f.first.modify p.lhs (· ∪ first)
    nullable := if nullable then f.nullable.set p.lhs true else f.nullable }

/-- One pass over the productions. -/
def pass (productions : List Production) (f : FirstSets) : FirstSets :=
  productions.foldl absorb f

/-- Adds what a production says, and notes if any of it is new. -/
def absorbNoting (noted : Bool × FirstSets) (p : Production) : Bool × FirstSets :=
  let (changed, f) := noted
  let (begins, vanishes) := f.ofSentence p.rhs
  let (changed, first) := begins.toList.foldl (insertNoting p.lhs) (changed, f.first)
  if vanishes && !f.isNullable p.lhs then (true, ⟨first, f.nullable.set p.lhs true⟩)
  else (changed, { f with first })

/-- One pass, with whether it has added anything. -/
def extend (productions : List Production) (f : FirstSets) : Bool × FirstSets :=
  productions.foldl absorbNoting (false, f)

/-- The FIRST sets and the number of passes it takes to find them.  Every pass but the last sets a flag
or enlarges a set, and there are only so many terminals to add. -/
def settled (productions : List Production) (nonterminals symbols : Nat) : FirstSets × Nat :=
  settle (pass productions) (symbols * (symbols + 1) + 1) 1 (initial nonterminals symbols)

end FirstSets

end GuardedGrammar
