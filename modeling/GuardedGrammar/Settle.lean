/-
  Repeating a pass until it changes nothing.

  `settle` counts the passes it makes, the last one included, which is the one that finds nothing to
  change.  The fuel bounds the passes; whoever calls it gives enough for every case.  Main statement:
  `settled_of_lt`, a run that stays within its fuel ends at a value that one more pass keeps.
-/

namespace GuardedGrammar

/-- Repeats `pass` up to `fuel` times, until it changes nothing.  The result is the last value and the
number of passes, where `made` counts those made before and the one about to be made. -/
def settle {α : Type} [DecidableEq α] (pass : α → α) : (fuel made : Nat) → α → α × Nat
  | 0, made, a => (a, made)
  | fuel + 1, made, a => if pass a = a then (a, made) else settle pass fuel (made + 1) (pass a)

variable {α : Type} [DecidableEq α] (pass : α → α)

/-- The passes that have been made before are counted as well. -/
theorem le_settle_snd (fuel made : Nat) (a : α) : made ≤ (settle pass fuel made a).2 := by
  induction fuel generalizing made a with
  | zero => exact Nat.le_refl _
  | succ fuel ih =>
    unfold settle
    split
    · exact Nat.le_refl _
    · exact Nat.le_trans (Nat.le_succ _) (ih (made + 1) (pass a))

/-- A run that does not use up its fuel ends at a value that the pass keeps. -/
theorem settled_of_lt (fuel made : Nat) (a : α) (h : (settle pass fuel made a).2 < made + fuel) :
    pass (settle pass fuel made a).1 = (settle pass fuel made a).1 := by
  induction fuel generalizing made a with
  | zero => exact absurd h (Nat.lt_irrefl _)
  | succ fuel ih =>
    unfold settle at h ⊢
    split at h
    · rename_i hp
      simp [hp]
    · rename_i hp
      simp only [hp, if_false]
      exact ih (made + 1) (pass a) (by omega)

end GuardedGrammar
