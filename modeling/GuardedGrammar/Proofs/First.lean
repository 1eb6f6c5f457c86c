/-
  FIRST sets that are complete.

  Sets grow: a pass only adds terminals and flags (`le_pass`).  There are finitely many of them to add,
  so the sets that are settled on are kept by every production (`absorb_settled`): what a right-hand
  side can begin with, its left-hand side can begin with, and a left-hand side vanishes if its
  right-hand side does (`mem_of_settled`, `isNullable_settled`).
-/
import GuardedGrammar.Automaton.First
import GuardedGrammar.Proofs.Fixpoint
import GuardedGrammar.Proofs.Closure
import Mathlib.Data.Finset.Prod

namespace GuardedGrammar

/-! ## Lists of sets -/

theorem SortedSet.not_mem_empty (t : Nat) : t ∉ (∅ : SortedSet Nat) := mem_empty t

/-- Beyond the end of a list of sets, there are no members. -/
theorem lt_length_of_mem_getD {l : List (SortedSet Nat)} {s t : Nat} (h : t ∈ l.getD s ∅) :
    s < l.length := by
  refine Nat.lt_of_not_le fun hge => SortedSet.not_mem_empty t ?_
  rwa [List.getD_eq_getElem?_getD, List.getElem?_eq_none hge] at h

/-- Two lists of sets are equal if they have the same members at each place. -/
theorem ext_of_mem_getD {l m : List (SortedSet Nat)} (hlen : l.length = m.length)
    (h : ∀ s t, t ∈ l.getD s ∅ ↔ t ∈ m.getD s ∅) : l = m := by
  refine List.ext_getElem hlen fun i hi hi' => SortedSet.ext fun t => ?_
  have hit := h i t
  rwa [List.getD_eq_getElem?_getD, List.getD_eq_getElem?_getD, List.getElem?_eq_getElem hi,
    List.getElem?_eq_getElem hi'] at hit

/-- What a list of sets holds after members have been added at one place. -/
theorem mem_getD_modify_union (l : List (SortedSet Nat)) (i : Nat) (added : SortedSet Nat)
    (s t : Nat) :
    t ∈ (l.modify i (· ∪ added)).getD s ∅ ↔
      t ∈ l.getD s ∅ ∨ s = i ∧ s < l.length ∧ t ∈ added := by
  rw [List.getD_eq_getElem?_getD, List.getD_eq_getElem?_getD, List.getElem?_modify]
  -- beyond the end of the list there is nothing, before or after
  rcases Nat.lt_or_ge s l.length with hlt | hge
  · rw [List.getElem?_eq_getElem hlt]
    by_cases hi : i = s
    · subst hi
      simp [hlt]
    · simp [hi, Ne.symm hi]
  · rw [List.getElem?_eq_none hge]
    simp [Nat.not_lt.2 hge]

namespace FirstSets

variable {productions : List Production} {nonterminals symbols : Nat} {f f' f'' : FirstSets}

/-! ## An order -/

/-- What the one says, the other says as well. -/
structure Le (f f' : FirstSets) : Prop where
  first_length : f'.first.length = f.first.length
  nullable_length : f'.nullable.length = f.nullable.length
  first : ∀ s, ∀ t ∈ f.of s, t ∈ f'.of s
  nullable : ∀ s, f.isNullable s = true → f'.isNullable s = true

theorem Le.refl (f : FirstSets) : f.Le f := ⟨rfl, rfl, fun _ _ h => h, fun _ h => h⟩

/-- What says more than something that says more. -/
theorem Le.trans (h : f.Le f') (h' : f'.Le f'') : f.Le f'' where
  first_length := h'.first_length.trans h.first_length
  nullable_length := h'.nullable_length.trans h.nullable_length
  first s t ht := h'.first s t (h.first s t ht)
  nullable s hs := h'.nullable s (h.nullable s hs)

/-- Sets that say the same are the same, place by place. -/
theorem Le.antisymm (h : f.Le f') (h' : f'.Le f) : f = f' := by
  have hfirst : f.first = f'.first :=
    ext_of_mem_getD h.first_length.symm fun s t => ⟨h.first s t, h'.first s t⟩
  have hnullable : f.nullable = f'.nullable := by
    refine List.ext_getElem h.nullable_length.symm fun i hi hi' => ?_
    have hiff : f.isNullable i = f'.isNullable i := by
      rw [Bool.eq_iff_iff]
      exact ⟨h.nullable i, h'.nullable i⟩
    unfold isNullable at hiff
    rwa [List.getD_eq_getElem?_getD, List.getD_eq_getElem?_getD, List.getElem?_eq_getElem hi,
      List.getElem?_eq_getElem hi'] at hiff
  cases f
  cases f'
  exact congrArg₂ FirstSets.mk hfirst hnullable

/-! ## What a production adds -/

/-- A production adds to the set of its left-hand side what its right-hand side can begin with. -/
theorem mem_of_absorb (f : FirstSets) (p : Production) (s t : Nat) :
    t ∈ (f.absorb p).of s ↔
      t ∈ f.of s ∨ s = p.lhs ∧ s < f.first.length ∧ t ∈ (f.ofSentence p.rhs).1 :=
  mem_getD_modify_union f.first p.lhs _ s t

/-- A production raises the flag of its left-hand side if its right-hand side can vanish. -/
theorem isNullable_absorb (f : FirstSets) (p : Production) (s : Nat) :
    (f.absorb p).isNullable s = true ↔
      f.isNullable s = true ∨
        s = p.lhs ∧ s < f.nullable.length ∧ (f.ofSentence p.rhs).2 = true := by
  show (if (f.ofSentence p.rhs).2 then f.nullable.set p.lhs true else f.nullable).getD s false =
    true ↔ f.nullable.getD s false = true ∨ _
  cases (f.ofSentence p.rhs).2 with
  | false => simp
  -- the flag is set at one place, if there is such a place
  | true =>
    rw [if_pos rfl, List.getD_eq_getElem?_getD, List.getElem?_set]
    by_cases hs : p.lhs = s
    · subst hs
      by_cases hlt : p.lhs < f.nullable.length <;> simp [hlt]
    · simp [hs, Ne.symm hs]

/-- A production adds no places. -/
theorem length_absorb (f : FirstSets) (p : Production) :
    (f.absorb p).first.length = f.first.length ∧
      (f.absorb p).nullable.length = f.nullable.length := by
  refine ⟨List.length_modify .., ?_⟩
  show (if (f.ofSentence p.rhs).2 then f.nullable.set p.lhs true else f.nullable).length = _
  split
  · exact List.length_set
  · rfl

/-- A production takes nothing away. -/
theorem le_absorb (f : FirstSets) (p : Production) : f.Le (f.absorb p) where
  first_length := (f.length_absorb p).1
  nullable_length := (f.length_absorb p).2
  first s t ht := (f.mem_of_absorb p s t).2 (.inl ht)
  nullable s hs := (f.isNullable_absorb p s).2 (.inl hs)

/-- A pass takes nothing away, since no production does. -/
theorem le_pass (productions : List Production) (f : FirstSets) : f.Le (f.pass productions) :=
  le_foldl Le Le.refl (fun _ _ _ => Le.trans) le_absorb productions f

/-! ## What there is to add -/

/-- There are places for so many symbols, and only the terminals among them are members. -/
structure Within (nonterminals symbols : Nat) (f : FirstSets) : Prop where
  first_length : f.first.length = symbols
  nullable_length : f.nullable.length = symbols
  terminal : ∀ s, ∀ t ∈ f.of s, nonterminals ≤ t ∧ t < symbols

/-- By induction on the row: what it can begin with is a terminal. -/
theorem Within.terminal_of_mem_ofSentence (h : f.Within nonterminals symbols)
    {sentence : List Nat} {t : Nat} (ht : t ∈ (f.ofSentence sentence).1) :
    nonterminals ≤ t ∧ t < symbols := by
  induction sentence with
  | nil => exact absurd ht (SortedSet.not_mem_empty t)
  | cons s rest ih =>
    unfold ofSentence at ht
    split at ht
    · rcases (SortedSet.mem_union _ _ _).1 ht with ht | ht
      · exact h.terminal s t ht
      · exact ih ht
    · exact h.terminal s t ht

/-- A production adds terminals only. -/
theorem Within.absorb (h : f.Within nonterminals symbols) (p : Production) :
    (f.absorb p).Within nonterminals symbols where
  first_length := (f.length_absorb p).1.trans h.first_length
  nullable_length := (f.length_absorb p).2.trans h.nullable_length
  terminal s t ht := by
    rcases (f.mem_of_absorb p s t).1 ht with ht | ⟨-, -, ht⟩
    · exact h.terminal s t ht
    · exact h.terminal_of_mem_ofSentence ht

/-- A pass adds terminals only. -/
theorem Within.pass (h : f.Within nonterminals symbols) (productions : List Production) :
    (f.pass productions).Within nonterminals symbols := by
  induction productions generalizing f with
  | nil => exact h
  | cons p rest ih => exact ih (h.absorb p)

/-- At the beginning, a terminal begins with itself, and nothing else is known. -/
theorem mem_of_initial (nonterminals symbols s t : Nat) :
    t ∈ (initial nonterminals symbols).of s ↔ s = t ∧ nonterminals ≤ t ∧ t < symbols := by
  show t ∈ (List.map _ (List.range symbols)).getD s ∅ ↔ _
  rw [List.getD_eq_getElem?_getD, List.getElem?_map]
  rcases Nat.lt_or_ge s symbols with hlt | hge
  · rw [List.getElem?_range hlt]
    show t ∈ (if s < nonterminals then ∅ else {s} : SortedSet Nat) ↔ _
    split
    · rename_i hs
      exact ⟨fun h => absurd h (SortedSet.not_mem_empty t), fun h => by omega⟩
    · rename_i hs
      rw [SortedSet.mem_singleton]
      exact ⟨fun h => by omega, fun h => h.1.symm⟩
  · rw [List.getElem?_eq_none (by rwa [List.length_range])]
    exact ⟨fun h => absurd h (SortedSet.not_mem_empty t), fun h => by omega⟩

/-- At the beginning, there are terminals only, at their own places. -/
theorem within_initial (nonterminals symbols : Nat) :
    (initial nonterminals symbols).Within nonterminals symbols where
  first_length := by
    show (List.map _ (List.range symbols)).length = symbols
    rw [List.length_map, List.length_range]
  nullable_length := List.length_replicate
  terminal s t ht := ((mem_of_initial _ _ s t).1 ht).2

/-- What the sets say: `(s, t)` for a terminal `t` that `s` can begin with, and `(s, symbols)` if `s`
can vanish. -/
def facts (symbols : Nat) (f : FirstSets) : Finset (Nat × Nat) :=
  (Finset.range symbols ×ˢ Finset.range (symbols + 1)).filter fun x =>
    x.2 ∈ f.of x.1 ∨ x.2 = symbols ∧ f.isNullable x.1 = true

theorem mem_facts {s t : Nat} : (s, t) ∈ facts symbols f ↔
    (s < symbols ∧ t < symbols + 1) ∧ (t ∈ f.of s ∨ t = symbols ∧ f.isNullable s = true) := by
  unfold facts
  rw [Finset.mem_filter, Finset.mem_product, Finset.mem_range, Finset.mem_range]

theorem Within.mem_facts_of_mem (h : f.Within nonterminals symbols) {s t : Nat} (ht : t ∈ f.of s) :
    (s, t) ∈ facts symbols f := by
  have hs : s < symbols := h.first_length ▸ lt_length_of_mem_getD ht
  exact mem_facts.2 ⟨⟨hs, Nat.lt_succ_of_lt (h.terminal s t ht).2⟩, .inl ht⟩

/-- That a symbol can vanish is a fact. -/
theorem Within.mem_facts_of_isNullable (h : f.Within nonterminals symbols) {s : Nat}
    (hs : f.isNullable s = true) : (s, symbols) ∈ facts symbols f := by
  refine mem_facts.2 ⟨⟨Nat.lt_of_not_le fun hge => ?_, Nat.lt_succ_self _⟩, .inr ⟨rfl, hs⟩⟩
  rw [isNullable, List.getD_eq_getElem?_getD,
    List.getElem?_eq_none (h.nullable_length.trans_le hge)] at hs
  exact nomatch hs

/-- Sets that say no more than others are below them. -/
theorem Within.le_of_facts_subset (h : f.Within nonterminals symbols)
    (h' : f'.Within nonterminals symbols) (hsub : facts symbols f ⊆ facts symbols f') : f.Le f' where
  first_length := h'.first_length.trans h.first_length.symm
  nullable_length := h'.nullable_length.trans h.nullable_length.symm
  first s t ht := by
    -- the pair may be read as a flag only for `symbols`, which is no terminal
    rcases (mem_facts.1 (hsub (h.mem_facts_of_mem ht))).2 with hmem | ⟨rfl, -⟩
    · exact hmem
    · exact absurd (h.terminal s t ht).2 (Nat.lt_irrefl t)
  nullable s hs := by
    rcases (mem_facts.1 (hsub (h.mem_facts_of_isNullable hs))).2 with hmem | ⟨-, hnull⟩
    · exact absurd (h'.terminal s symbols hmem).2 (Nat.lt_irrefl symbols)
    · exact hnull

theorem Le.facts_subset (h : f.Le f') : facts symbols f ⊆ facts symbols f' := by
  rintro ⟨s, t⟩ hst
  obtain ⟨hrange, hsays⟩ := mem_facts.1 hst
  exact mem_facts.2 ⟨hrange, hsays.imp (h.first s t) (And.imp_right (h.nullable s))⟩

/-! ## The sets that are settled on -/

theorem within_settled (productions : List Production) (nonterminals symbols : Nat) :
    (settled productions nonterminals symbols).1.Within nonterminals symbols :=
  settle_induction (Within nonterminals symbols) (fun _ h => h.pass productions) _ _
    (within_initial nonterminals symbols)

/-- One more pass does not add anything. -/
theorem pass_settled (productions : List Production) (nonterminals symbols : Nat) :
    (settled productions nonterminals symbols).1.pass productions =
      (settled productions nonterminals symbols).1 := by
  refine settle_fixed (Within nonterminals symbols) (facts symbols)
    (Finset.range symbols ×ˢ Finset.range (symbols + 1)) (fun _ h => h.pass productions)
    (fun _ _ => Finset.filter_subset _ _) (fun f h hne => ?_) 1
    (within_initial nonterminals symbols) ?_
  -- sets that a pass changes say more than before, or they would be the same
  · refine (le_pass productions f).facts_subset.ssubset_of_ne fun heq => hne ?_
    exact ((h.pass productions).le_of_facts_subset h heq.ge).antisymm (le_pass productions f)
  · rw [Finset.card_product, Finset.card_range, Finset.card_range]
    exact Nat.lt_succ_self _

/-! Settled sets hold what productions ask of them: no production adds anything, so a left-hand side
begins as its right-hand side does, and vanishes if that does. -/

theorem absorb_settled {p : Production} (hp : p ∈ productions) :
    (settled productions nonterminals symbols).1.absorb p =
      (settled productions nonterminals symbols).1 :=
  foldl_fixed Le (fun _ _ _ => Le.trans) Le.refl (fun _ _ => Le.antisymm) le_absorb
    (pass_settled productions nonterminals symbols) hp

theorem mem_of_settled {p : Production} (hp : p ∈ productions) (hlhs : p.lhs < symbols) {t : Nat}
    (ht : t ∈ ((settled productions nonterminals symbols).1.ofSentence p.rhs).1) :
    t ∈ (settled productions nonterminals symbols).1.of p.lhs := by
  rw [← absorb_settled hp]
  have hlen := (within_settled productions nonterminals symbols).first_length
  exact (mem_of_absorb _ p p.lhs t).2 (.inr ⟨rfl, hlen.symm ▸ hlhs, ht⟩)

theorem isNullable_settled {p : Production} (hp : p ∈ productions) (hlhs : p.lhs < symbols)
    (h : ((settled productions nonterminals symbols).1.ofSentence p.rhs).2 = true) :
    (settled productions nonterminals symbols).1.isNullable p.lhs = true := by
  rw [← absorb_settled hp]
  have hlen := (within_settled productions nonterminals symbols).nullable_length
  exact (isNullable_absorb _ p p.lhs).2 (.inr ⟨rfl, hlen.symm ▸ hlhs, h⟩)

/-- A terminal begins with itself. -/
theorem mem_of_settled_of_terminal {t : Nat} (hge : nonterminals ≤ t) (hlt : t < symbols) :
    t ∈ (settled productions nonterminals symbols).1.of t :=
  settle_induction (fun f => t ∈ f.of t) (fun f h => (le_pass productions f).first t t h) _ _
    ((mem_of_initial nonterminals symbols t t).2 ⟨rfl, hge, hlt⟩)

end FirstSets

end GuardedGrammar
