/-
  Productions over numbered symbols, and the items of the automaton.

  Symbols are numbered so that the nonterminals come first: below `nonterminals` a number is a
  nonterminal, from there on a terminal.  An item is a production with a dot, which says how much of
  the right-hand side has been read.  Items are ordered by production and then by dot.
-/
import GuardedGrammar.SortedSet

namespace GuardedGrammar

/-- A rule as the automaton sees it: numbers for symbols, and whether a guard decides about it. -/
structure Production where
  lhs : Nat
  rhs : List Nat
  guarded : Bool := false
deriving DecidableEq, Repr

/-- The production that derives the first nonterminal of the grammar and nothing else. -/
def startProduction : Nat := 0

/-- A production with a dot before one of its symbols, or behind all of them. -/
structure Item where
  production : Nat
  dot : Nat
deriving DecidableEq, Repr

namespace Item

/-- The order of items: by production, then by dot. -/
def before (a b : Item) : Bool :=
  decide (a.production < b.production) || (a.production == b.production && decide (a.dot < b.dot))

/-- Items come in the order of their productions, and of their dots within one. -/
theorem before_eq_true_iff (a b : Item) :
    a.before b = true ↔
      a.production < b.production ∨ a.production = b.production ∧ a.dot < b.dot := by
  simp [before]

instance : Ordered Item where
  before := before
  irrefl a := by simp [before]
  trans a b c h₁ h₂ := by
    rw [before_eq_true_iff] at *
    omega
  total a b h₁ h₂ := by
    have h₁' : ¬a.before b = true := by simp [h₁]
    have h₂' : ¬b.before a = true := by simp [h₂]
    rw [before_eq_true_iff] at h₁' h₂'
    cases a
    cases b
    simp only [Item.mk.injEq] at *
    omega

/-- The symbol behind the dot; there is none when the whole right-hand side has been read. -/
def observed? (productions : List Production) (i : Item) : Option Nat := do
  (← productions[i.production]?).rhs[i.dot]?

/-- The item after its observed symbol has been read. -/
def advance (i : Item) : Item := ⟨i.production, i.dot + 1⟩

end Item

/-- A set of items, which is a state of the automaton. -/
abbrev ItemSet := SortedSet Item

end GuardedGrammar
