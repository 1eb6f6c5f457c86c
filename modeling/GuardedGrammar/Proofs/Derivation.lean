/-
  What rules derive.

  Sentential forms are rows of names; a rule puts its right-hand side in place of its left-hand side,
  whatever its guard says.  A name that no rule has on its left is a terminal.  A rightmost derivation
  is listed by the rules that it applies, each at a place behind which there are terminals only.
-/
import GuardedGrammar.Rule.Basic
import Mathlib.Logic.Relation

namespace GuardedGrammar

/-- The names on the right-hand side of a rule. -/
def Rule.rhsNames (r : Rule) : List String := r.rhs.map Symbol.name

variable {rules : List Rule}

/-- No rule derives anything from the name. -/
def IsTerminal (rules : List Rule) (name : String) : Prop := ∀ r ∈ rules, r.lhs.name ≠ name

/-- One rule is applied somewhere in a sentential form. -/
inductive Produces (rules : List Rule) : List String → List String → Prop
  | apply {r : Rule} (hr : r ∈ rules) (before after : List String) :
    Produces rules (before ++ r.lhs.name :: after) (before ++ r.rhsNames ++ after)

/-- One sentential form is derived from another. -/
def Derives (rules : List Rule) : List String → List String → Prop :=
  Relation.ReflTransGen (Produces rules)

/-- What is derived from a name and consists of terminals. -/
structure IsSentence (rules : List Rule) (start : String) (sentence : List String) : Prop where
  derives : Derives rules [start] sentence
  terminals : ∀ name ∈ sentence, IsTerminal rules name

/-- The rules that lead from one sentential form to another, applied in order, each to the rightmost
nonterminal. -/
inductive RightmostDerivation (rules : List Rule) : List Rule → List String → List String → Prop
  | nil (a : List String) : RightmostDerivation rules [] a a
  | cons {r : Rule} {rs : List Rule} {before after b : List String} (hr : r ∈ rules)
    (hafter : ∀ name ∈ after, IsTerminal rules name)
    (h : RightmostDerivation rules rs (before ++ r.rhsNames ++ after) b) :
    RightmostDerivation rules (r :: rs) (before ++ r.lhs.name :: after) b

variable {a b c d : List String}

/-! ## Derivations in a row -/

/-- A rule can be applied wherever its left-hand side stands. -/
theorem Produces.context (h : Produces rules a b) (before after : List String) :
    Produces rules (before ++ a ++ after) (before ++ b ++ after) := by
  cases h with
  | @apply r hr u v =>
    have h := Produces.apply hr (before ++ u) (v ++ after)
    simpa only [List.append_assoc, List.cons_append] using h

/-- What is derived from a part of a row is derived in its place. -/
theorem Derives.context (h : Derives rules a b) (before after : List String) :
    Derives rules (before ++ a ++ after) (before ++ b ++ after) :=
  Relation.ReflTransGen.lift (fun w => before ++ w ++ after)
    (fun _ _ h => Produces.context h before after) _ _ h

/-- Two derivations side by side. -/
theorem Derives.append (h : Derives rules a b) (h' : Derives rules c d) :
    Derives rules (a ++ c) (b ++ d) := by
  have hleft : Derives rules (a ++ c) (b ++ c) := h.context [] c
  have hright := h'.context b []
  rw [List.append_nil, List.append_nil] at hright
  exact hleft.trans hright

/-! ## Rightmost derivations -/

/-- A rightmost derivation is a derivation. -/
theorem RightmostDerivation.derives {rs : List Rule} {a b : List String}
    (h : RightmostDerivation rules rs a b) : Derives rules a b := by
  induction h with
  | nil a => exact .refl
  | cons hr _ _ ih => exact ih.head (.apply hr _ _)

/-- A terminal behind a sentential form stays where it is. -/
theorem RightmostDerivation.append_terminal {rs : List Rule} {a b : List String} {name : String}
    (h : RightmostDerivation rules rs a b) (hname : IsTerminal rules name) :
    RightmostDerivation rules rs (a ++ [name]) (b ++ [name]) := by
  induction h with
  | nil a => exact .nil _
  | @cons r rs before after b hr hafter _ ih =>
    rw [List.append_assoc] at ih
    rw [List.append_assoc, List.cons_append]
    -- the step stays rightmost, since one more terminal is behind it
    refine .cons hr (fun n hn => ?_) ih
    rcases List.mem_append.1 hn with hn | hn
    · exact hafter n hn
    · exact List.mem_singleton.1 hn ▸ hname

end GuardedGrammar
