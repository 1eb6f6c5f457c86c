/-
  What productions derive.

  Sentential forms are rows of numbered symbols; a production puts its right-hand side in place of its
  left-hand side, wherever that stands.  A derivation can be made inside any row (`Yields.context`), so
  two derivations that are made side by side make one (`Yields.append`), and with productions that keep
  to the symbols that are numbered, every form that is derived does so as well (`Yields.inRange`).
-/
import GuardedGrammar.Automaton.Production
import Mathlib.Logic.Relation

namespace GuardedGrammar

/-- One production is applied somewhere in a sentential form. -/
inductive Rewrites (productions : List Production) : List Nat → List Nat → Prop
  | apply {p : Production} (hp : p ∈ productions) (before after : List Nat) :
    Rewrites productions (before ++ p.lhs :: after) (before ++ p.rhs ++ after)

/-- One sentential form is derived from another, in zero or more steps. -/
def Yields (productions : List Production) : List Nat → List Nat → Prop :=
  Relation.ReflTransGen (Rewrites productions)

/-- One sentential form is derived from another, in one or more steps. -/
def YieldsStrictly (productions : List Production) : List Nat → List Nat → Prop :=
  Relation.TransGen (Rewrites productions)

/-- Left-hand sides are nonterminals, and right-hand sides consist of symbols. -/
structure InRange (nonterminals symbols : Nat) (productions : List Production) : Prop where
  lhs : ∀ p ∈ productions, p.lhs < nonterminals
  rhs : ∀ p ∈ productions, ∀ s ∈ p.rhs, s < symbols

/-- The symbol is a terminal. -/
def IsTerminalId (nonterminals symbols symbol : Nat) : Prop :=
  nonterminals ≤ symbol ∧ symbol < symbols

instance (nonterminals symbols symbol : Nat) :
    Decidable (IsTerminalId nonterminals symbols symbol) :=
  inferInstanceAs (Decidable (_ ∧ _))

variable {productions : List Production} {nonterminals symbols : Nat} {a b c d : List Nat}

/-! A production rewrites its left-hand side, wherever that stands: what is to the left and to the
right does not matter. -/

theorem Rewrites.production {p : Production} (hp : p ∈ productions) :
    Rewrites productions [p.lhs] p.rhs := by
  have h := Rewrites.apply hp [] []
  rwa [List.nil_append, List.nil_append, List.append_nil] at h

theorem Rewrites.context (h : Rewrites productions a b) (before after : List Nat) :
    Rewrites productions (before ++ a ++ after) (before ++ b ++ after) := by
  cases h with
  | @apply p hp u v =>
    have h := Rewrites.apply hp (before ++ u) (v ++ after)
    simpa only [List.append_assoc, List.cons_append] using h

theorem Yields.context (h : Yields productions a b) (before after : List Nat) :
    Yields productions (before ++ a ++ after) (before ++ b ++ after) :=
  Relation.ReflTransGen.lift (fun w => before ++ w ++ after)
    (fun _ _ h => Rewrites.context h before after) _ _ h

/-- Two derivations side by side. -/
theorem Yields.append (h : Yields productions a b) (h' : Yields productions c d) :
    Yields productions (a ++ c) (b ++ d) := by
  have hleft : Yields productions (a ++ c) (b ++ c) := h.context [] c
  have hright : Yields productions (b ++ c) (b ++ d) := by
    have := h'.context b []
    rwa [List.append_nil, List.append_nil] at this
  exact hleft.trans hright

/-- Productions that keep to the symbols lead from rows of symbols to rows of symbols. -/
theorem Rewrites.inRange (hrange : InRange nonterminals symbols productions)
    (h : Rewrites productions a b) (ha : ∀ s ∈ a, s < symbols) : ∀ s ∈ b, s < symbols := by
  cases h with
  | @apply p hp before after =>
    intro s hs
    rcases List.mem_append.1 hs with hs | hs
    · rcases List.mem_append.1 hs with hs | hs
      · exact ha s (List.mem_append_left _ hs)
      · exact hrange.rhs p hp s hs
    · exact ha s (List.mem_append_right _ (List.mem_cons_of_mem _ hs))

/-- Rewriting leads to no new numbers. -/
theorem Yields.inRange (hrange : InRange nonterminals symbols productions)
    (h : Yields productions a b) (ha : ∀ s ∈ a, s < symbols) : ∀ s ∈ b, s < symbols := by
  induction h with
  | refl => exact ha
  | tail _ hstep ih => exact hstep.inRange hrange ih

/-- The same behind the first symbol of a row, whatever that is. -/
theorem Rewrites.tail_inRange (hrange : InRange nonterminals symbols productions)
    (h : Rewrites productions a b) (ha : ∀ s ∈ a.tail, s < symbols) :
    ∀ s ∈ b.tail, s < symbols := by
  cases h with
  | @apply p hp before after =>
    cases before with
    | nil =>
      intro s hs
      rcases List.mem_append.1 (List.mem_of_mem_tail hs) with hs | hs
      · exact hrange.rhs p hp s hs
      · exact ha s hs
    | cons _ before => exact (Rewrites.apply hp before after).inRange hrange ha

end GuardedGrammar
