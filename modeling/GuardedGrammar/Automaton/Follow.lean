/-
  What can stand behind a nonterminal.

  For each nonterminal, FOLLOW holds the terminals that can come right after it.  The end marker can
  come after the start symbol.  Where a nonterminal stands in a production, what comes after it there
  can begin, and if all of that can vanish, so can whatever comes after the left-hand side.  The sets
  grow in passes over the productions until a pass adds nothing.
-/
import GuardedGrammar.Automaton.First

namespace GuardedGrammar

/-- The FOLLOW set of each nonterminal. -/
abbrev FollowSets := List (SortedSet Nat)

namespace FollowSets

/-- The FOLLOW set of a nonterminal. -/
def of (f : FollowSets) (symbol : Nat) : SortedSet Nat := f.getD symbol ∅

/-- Only the end marker is known, and only behind the start symbol. -/
def initial (nonterminals start endMarker : Nat) : FollowSets :=
  (List.replicate nonterminals ∅).modify start (·.insert endMarker)

/-- Adds what an occurrence of a symbol says, in a production of `lhs` with `rest` behind it. -/
def absorbOccurrence (nonterminals : Nat) (first : FirstSets) (lhs symbol : Nat) (rest : List Nat)
    (f : FollowSets) : FollowSets :=
  if symbol < nonterminals then
    let (begins, vanishes) := first.ofSentence rest
    let f := f.modify symbol (· ∪ begins)
    if vanishes && symbol != lhs then f.modify symbol (· ∪ of f lhs) else f
  else f

/-- Adds what the occurrences in a part of a right-hand side say, from left to right. -/
def absorbAll (nonterminals : Nat) (first : FirstSets) (lhs : Nat) :
    List Nat → FollowSets → FollowSets
  | [], f => f
  | symbol :: rest, f =>
    absorbAll nonterminals first lhs rest (absorbOccurrence nonterminals first lhs symbol rest f)

/-- One pass over the productions. -/
def pass (productions : List Production) (nonterminals : Nat) (first : FirstSets)
    (f : FollowSets) : FollowSets :=
  productions.foldl (fun f p => absorbAll nonterminals first p.lhs p.rhs f) f

/-- Adds what an occurrence of a symbol says, and notes if any of it is new. -/
def occurrenceNoting (nonterminals : Nat) (first : FirstSets) (lhs symbol : Nat) (rest : List Nat)
    (noted : Bool × FollowSets) : Bool × FollowSets :=
  if symbol < nonterminals then
    let (begins, vanishes) := first.ofSentence rest
    let noted := begins.toList.foldl (insertNoting symbol) noted
    if vanishes && symbol != lhs then
      (of noted.2 lhs).toList.foldl (insertNoting symbol) noted
    else noted
  else noted

/-- Adds what the occurrences in a part of a right-hand side say, and notes if any of it is new. -/
def allNoting (nonterminals : Nat) (first : FirstSets) (lhs : Nat) :
    List Nat → Bool × FollowSets → Bool × FollowSets
  | [], noted => noted
  | symbol :: rest, noted =>
    allNoting nonterminals first lhs rest (occurrenceNoting nonterminals first lhs symbol rest noted)

/-- One pass, with whether it has added anything. -/
def extend (productions : List Production) (nonterminals : Nat) (first : FirstSets)
    (f : FollowSets) : Bool × FollowSets :=
  productions.foldl (fun noted p => allNoting nonterminals first p.lhs p.rhs noted) (false, f)

/-- The FOLLOW sets and the number of passes it takes to find them.  Every pass but the last enlarges
a set, and there are only so many terminals to add. -/
def settled (productions : List Production) (nonterminals start endMarker : Nat)
    (first : FirstSets) : FollowSets × Nat :=
  settle (pass productions nonterminals first)
    (nonterminals * (first.first.length + 1) + 1) 1 (initial nonterminals start endMarker)

end FollowSets

end GuardedGrammar
