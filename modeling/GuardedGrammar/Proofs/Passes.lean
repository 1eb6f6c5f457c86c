/-
  Loops that note whether anything has changed.

  A pass adds one thing after the other, and notes whether any of them is new.  Nothing is taken away
  again, so what has been noted in the end is that the pass as a whole has changed something
  (`foldl_noting`): if one step changes something, the later ones cannot undo it.

  A loop makes passes until one of them notes no change (`Repeats`).  It makes the passes that `settle`
  makes, and comes to the same end (`repeats_settle`).  Each pass but the last adds a fact, so the number
  of passes is bounded by the number of facts that are not known at the beginning
  (`settle_snd_add_card_le`).  All that is to be shown of a loop is put together in `Settles`.
-/
import GuardedGrammar.Proofs.Fixpoint

namespace GuardedGrammar

/-! ## Passes that note what they change -/

section

variable {α γ : Type} [DecidableEq α] {le : α → α → Prop} {noting : Bool × α → γ → Bool × α}

/-- Of two steps that add something, one changes something if and only if both together do. -/
theorem decide_ne_or (antisymm : ∀ a b, le a b → le b a → a = b) {a b c : α} (hab : le a b)
    (hbc : le b c) : (decide (b ≠ a) || decide (c ≠ b)) = decide (c ≠ a) := by
  by_cases hb : b = a
  · subst hb
    rw [decide_eq_false (not_not_intro rfl), Bool.false_or]
  · -- what the first step has added, the second cannot take away
    have hc : c ≠ a := by
      intro hc
      rw [hc] at hbc
      exact hb (antisymm b a hbc hab)
    rw [decide_eq_true hb, decide_eq_true hc, Bool.true_or]

/-- A pass notes that it changes something if each of its steps does. -/
theorem foldl_noting (Inv : α → Prop) (add : α → γ → α) (refl : ∀ a, le a a)
    (trans : ∀ a b c, le a b → le b c → le a c)
    (antisymm : ∀ a b, le a b → le b a → a = b) (adds : ∀ a x, le a (add a x)) {l : List γ}
    (keeps : ∀ a, Inv a → ∀ x ∈ l, Inv (add a x))
    (notes : ∀ changed a, Inv a → ∀ x ∈ l,
      noting (changed, a) x = (changed || decide (add a x ≠ a), add a x))
    (changed : Bool) {a : α} (h : Inv a) :
    l.foldl noting (changed, a) =
      (changed || decide (l.foldl add a ≠ a), l.foldl add a) := by
  induction l generalizing changed a with
  | nil =>
    show (changed, a) = (changed || decide (a ≠ a), a)
    rw [decide_eq_false (not_not_intro rfl), Bool.or_false]
  | cons x l ih =>
    have hrest := ih (fun a ha y hy => keeps a ha y (List.mem_cons_of_mem x hy))
      (fun changed a ha y hy => notes changed a ha y (List.mem_cons_of_mem x hy))
      (changed || decide (add a x ≠ a)) (keeps a h x List.mem_cons_self)
    have hle : le (add a x) (l.foldl add (add a x)) := le_foldl le refl trans adds l (add a x)
    rw [List.foldl_cons, notes changed a h x List.mem_cons_self, hrest, List.foldl_cons,
      Bool.or_assoc, decide_ne_or antisymm (adds a x) hle]

end

/-! ## Loops -/

section

variable {α β : Type} {extend : α → Bool × α} {a b c : α} {n m : Nat}

/-- Passes are made until one of them notes no change; so many of them, the last one included, lead to
the last value. -/
inductive Repeats (extend : α → Bool × α) : α → Nat → α → Prop
  | last {a b : α} (hpass : extend a = (false, b)) : Repeats extend a 1 b
  | again {a b c : α} {n : Nat} (hpass : extend a = (true, b)) (hrest : Repeats extend b n c) :
    Repeats extend a (n + 1) c

/-- A loop goes in one way only. -/
theorem Repeats.unique (h : Repeats extend a n b) (h' : Repeats extend a m c) : n = m ∧ b = c := by
  induction h generalizing m with
  | last hpass =>
    cases h' with
    | last hpass' => exact ⟨rfl, congrArg Prod.snd (hpass.symm.trans hpass')⟩
    | again hpass' _ => exact nomatch hpass.symm.trans hpass'
  | again hpass _ ih =>
    cases h' with
    | last hpass' => exact nomatch hpass.symm.trans hpass'
    | again hpass' hrest =>
      obtain rfl := congrArg Prod.snd (hpass.symm.trans hpass')
      obtain ⟨hn, hb⟩ := ih hrest
      exact ⟨congrArg (· + 1) hn, hb⟩

variable [DecidableEq α] {pass : α → α} {Inv : α → Prop}

/-- The passes of the loop are those that are counted, if passes note what they change. -/
theorem repeats_settle (keeps : ∀ a, Inv a → Inv (pass a))
    (notes : ∀ a, Inv a → extend a = (decide (pass a ≠ a), pass a)) (fuel made : Nat) (h : Inv a)
    (hfixed : pass (settle pass fuel made a).1 = (settle pass fuel made a).1) :
    Repeats extend a ((settle pass fuel made a).2 + 1 - made) (settle pass fuel made a).1 := by
  -- a pass that changes nothing is the last one
  have hlast : ∀ (made : Nat) (a : α), Inv a → pass a = a →
      Repeats extend a (made + 1 - made) a := by
    intro made a h hp
    rw [Nat.add_sub_cancel_left]
    refine .last ?_
    rw [notes a h, hp, decide_eq_false (not_not_intro rfl)]
  induction fuel generalizing made a with
  | zero => exact hlast made a h hfixed
  | succ fuel ih =>
    unfold settle at hfixed ⊢
    split
    · rename_i hp
      exact hlast made a h hp
    · rename_i hp
      rw [if_neg hp] at hfixed
      have hpass := notes a h
      rw [decide_eq_true hp] at hpass
      have hmade := le_settle_snd pass fuel (made + 1) (pass a)
      -- the pass that is made here is one more than those that are left
      have hcount : (settle pass fuel (made + 1) (pass a)).2 + 1 - made =
          (settle pass fuel (made + 1) (pass a)).2 + 1 - (made + 1) + 1 := by omega
      rw [hcount]
      exact .again hpass (ih (made + 1) (keeps a h) hfixed)

/-- Each pass but the last adds a fact to those that are known at the beginning. -/
theorem settle_snd_add_card_le (Inv : α → Prop) (facts : α → Finset β) (known : Finset β)
    (keeps : ∀ a, Inv a → Inv (pass a)) (within : ∀ a, Inv a → facts a ⊆ known)
    (grows : ∀ a, Inv a → pass a ≠ a → facts a ⊂ facts (pass a)) (fuel made : Nat) (h : Inv a) :
    (settle pass fuel made a).2 + (facts a).card ≤ made + known.card := by
  have hcard := Finset.card_le_card (within a h)
  induction fuel generalizing made a with
  | zero =>
    show made + (facts a).card ≤ _
    omega
  | succ fuel ih =>
    unfold settle
    split
    · show made + (facts a).card ≤ _
      omega
    · rename_i hp
      -- the pass has added a fact, which pays for it
      have hmore := Finset.card_lt_card (grows a h hp)
      have hrest := ih (made + 1) (keeps a h) (Finset.card_le_card (within _ (keeps a h)))
      omega

/-! ## What there is to say of a loop -/

/-- A loop comes to its end, and makes no more passes than the bound; there, one more pass changes
nothing.  No pass takes anything away, and each notes a change if and only if there is something new. -/
structure Settles (extend : α → Bool × α) (Le Grows : α → α → Prop) (Sized : α → Prop) (start : α)
    (passes bound : Nat) (result : α) : Prop where
  run : ∀ n a, Repeats extend start n a ↔ n = passes ∧ a = result
  bounded : passes ≤ bound
  stable : extend result = (false, result)
  sized : Sized start ∧ ∀ a, Sized a → Sized (extend a).2
  keeps : ∀ a, Sized a → Le a (extend a).2
  notes : ∀ a, Sized a → ((extend a).1 = true ↔ Grows a (extend a).2)

/-- All that is to be shown of a loop follows if its pass only adds, and notes what it adds. -/
theorem settles_settle {Le Grows : α → α → Prop} {Sized : α → Prop} {start : α} {fuel bound : Nat}
    (notes : ∀ a, Sized a → extend a = (decide (pass a ≠ a), pass a))
    (keeps : ∀ a, Sized a → Sized (pass a)) (adds : ∀ a, Le a (pass a))
    (grows : ∀ a b, Le a b → (b ≠ a ↔ Grows a b)) (h : Sized start)
    (hfixed : pass (settle pass fuel 1 start).1 = (settle pass fuel 1 start).1)
    (hbound : (settle pass fuel 1 start).2 ≤ bound) :
    Settles extend Le Grows Sized start (settle pass fuel 1 start).2 bound
      (settle pass fuel 1 start).1 := by
  have hrun := repeats_settle keeps notes fuel 1 h hfixed
  rw [Nat.add_sub_cancel] at hrun
  refine ⟨fun n a => ⟨fun hn => hn.unique hrun, ?_⟩, hbound, ?_, ⟨h, fun a ha => ?_⟩, fun a ha => ?_,
    fun a ha => ?_⟩
  · rintro ⟨rfl, rfl⟩
    exact hrun
  · -- the loop has ended where one more pass changes nothing
    have hsized := settle_induction Sized keeps fuel 1 h
    rw [notes _ hsized, hfixed, decide_eq_false (not_not_intro rfl)]
  · rw [notes a ha]
    exact keeps a ha
  · rw [notes a ha]
    exact adds a
  · rw [notes a ha]
    exact decide_eq_true_iff.trans (grows a _ (adds a))

end

end GuardedGrammar
