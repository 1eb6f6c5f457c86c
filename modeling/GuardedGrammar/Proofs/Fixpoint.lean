/-
  Where repeated passes end.

  A pass that only adds facts from a finite universe cannot change anything for ever: each pass that
  changes something adds a fact, so there are at most as many of those as there are facts, and a run
  with more fuel than that ends at a value that the pass keeps (`settle_fixed`).  Whatever holds of the
  first value and is kept by the pass holds of the last (`settle_induction`).
-/
import GuardedGrammar.Settle
import Mathlib.Data.Finset.Card

namespace GuardedGrammar

section Settle

variable {α β : Type} [DecidableEq α] {pass : α → α}

/-- What a pass keeps holds of the result. -/
theorem settle_induction (Inv : α → Prop) (keeps : ∀ a, Inv a → Inv (pass a)) (fuel made : Nat)
    {a : α} (h : Inv a) : Inv (settle pass fuel made a).1 := by
  induction fuel generalizing made a with
  | zero => exact h
  | succ fuel ih =>
    unfold settle
    split
    · exact h
    · exact ih (made + 1) (keeps a h)

/-- A run with more fuel than there are facts left to add ends at a value that the pass keeps. -/
theorem settle_fixed_of_lt {Inv : α → Prop} {facts : α → Finset β} {known : Finset β}
    (keeps : ∀ a, Inv a → Inv (pass a)) (within : ∀ a, Inv a → facts a ⊆ known)
    (grows : ∀ a, Inv a → pass a ≠ a → facts a ⊂ facts (pass a)) (fuel made : Nat) {a : α}
    (h : Inv a) (hfuel : known.card < (facts a).card + fuel) :
    pass (settle pass fuel made a).1 = (settle pass fuel made a).1 := by
  induction fuel generalizing made a with
  | zero =>
    -- there would be more facts than can be known
    have := Finset.card_le_card (within a h)
    omega
  | succ fuel ih =>
    unfold settle
    split
    · rename_i hp
      exact hp
    · rename_i hp
      -- the pass has added a fact, which makes up for the fuel that it took
      have := Finset.card_lt_card (grows a h hp)
      exact ih (made + 1) (keeps a h) (by omega)

/-- A run with more fuel than there are facts ends at a value that the pass keeps. -/
theorem settle_fixed (Inv : α → Prop) (facts : α → Finset β) (known : Finset β)
    (keeps : ∀ a, Inv a → Inv (pass a)) (within : ∀ a, Inv a → facts a ⊆ known)
    (grows : ∀ a, Inv a → pass a ≠ a → facts a ⊂ facts (pass a)) {fuel : Nat} (made : Nat) {a : α}
    (h : Inv a) (hfuel : known.card < fuel) :
    pass (settle pass fuel made a).1 = (settle pass fuel made a).1 :=
  settle_fixed_of_lt keeps within grows fuel made h (Nat.lt_of_lt_of_le hfuel (Nat.le_add_left _ _))

end Settle

/-! ## Passes made of steps

  A pass goes over a list and lets each member add something.  If nothing is ever lost, a pass that
  changes nothing consists of steps that change nothing. -/

variable {α γ : Type} (le : α → α → Prop) {add : α → γ → α}

/-- If no member loses anything, a pass loses nothing. -/
theorem le_foldl (refl : ∀ a, le a a) (trans : ∀ a b c, le a b → le b c → le a c)
    (adds : ∀ a x, le a (add a x)) (l : List γ) (a : α) : le a (l.foldl add a) := by
  induction l generalizing a with
  | nil => exact refl a
  | cons x l ih => exact trans _ _ _ (adds a x) (ih (add a x))

/-- If a pass changes nothing, then none of its members does. -/
theorem foldl_fixed (trans : ∀ a b c, le a b → le b c → le a c) (refl : ∀ a, le a a)
    (antisymm : ∀ a b, le a b → le b a → a = b) (adds : ∀ a x, le a (add a x)) {l : List γ} {a : α}
    (h : l.foldl add a = a) {x : γ} (hx : x ∈ l) : add a x = a := by
  induction l with
  | nil => exact absurd hx List.not_mem_nil
  | cons y l ih =>
    -- what the first member adds is still there at the end, where there is nothing new
    have hback : le (add a y) a := by
      have := le_foldl le refl trans adds l (add a y)
      rwa [← List.foldl_cons, h] at this
    have hy : add a y = a := antisymm _ _ hback (adds a y)
    rcases List.mem_cons.1 hx with rfl | hx
    · exact hy
    · rw [List.foldl_cons, hy] at h
      exact ih h hx

end GuardedGrammar
