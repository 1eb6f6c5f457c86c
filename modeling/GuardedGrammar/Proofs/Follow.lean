/-
  FOLLOW sets that are complete.

  As with FIRST sets, passes only add terminals, and the sets that are settled on are kept by every
  occurrence of a nonterminal on a right-hand side.  So what can begin behind the occurrence is in the
  FOLLOW set of the nonterminal (`mem_of_settled_of_begins`), and what comes after the left-hand side
  is as well if all that is behind the occurrence can vanish (`mem_of_settled_of_vanishes`).
-/
import GuardedGrammar.Automaton.Follow
import GuardedGrammar.Proofs.First
import Mathlib.Order.Interval.Finset.Nat

namespace GuardedGrammar

namespace FollowSets

variable {productions : List Production} {nonterminals symbols endMarker : Nat} {first : FirstSets}
  {f f' f'' : FollowSets}

/-! ## An order -/

/-- What the one says, the other says as well. -/
structure Le (f f' : FollowSets) : Prop where
  length : f'.length = f.length
  mem : ∀ s, ∀ t ∈ of f s, t ∈ of f' s

/-! The order is a partial one: sets that say the same are the same, place by place. -/

theorem Le.refl (f : FollowSets) : Le f f := ⟨rfl, fun _ _ h => h⟩

theorem Le.trans (h : Le f f') (h' : Le f' f'') : Le f f'' :=
  ⟨h'.length.trans h.length, fun s t ht => h'.mem s t (h.mem s t ht)⟩

theorem Le.antisymm (h : Le f f') (h' : Le f' f) : f = f' :=
  ext_of_mem_getD h.length.symm fun s t => ⟨h.mem s t, h'.mem s t⟩

/-! ## What an occurrence adds

A nonterminal on a right-hand side may be followed by what the rest begins with, and by what may
follow the left-hand side if all of the rest can vanish. -/

/-- To add members at one place takes nothing away. -/
theorem le_modify_union (f : FollowSets) (s : Nat) (added : SortedSet Nat) :
    Le f (f.modify s (· ∪ added)) :=
  ⟨List.length_modify .., fun s' t ht => (mem_getD_modify_union f s added s' t).2 (.inl ht)⟩

/-- An occurrence takes nothing away. -/
theorem le_absorbOccurrence (nonterminals : Nat) (first : FirstSets) (lhs symbol : Nat)
    (rest : List Nat) (f : FollowSets) :
    Le f (absorbOccurrence nonterminals first lhs symbol rest f) := by
  unfold absorbOccurrence
  dsimp only
  split
  · -- with all behind it vanishing, there are two additions, otherwise one
    split
    · exact (le_modify_union _ _ _).trans (le_modify_union _ _ _)
    · exact le_modify_union _ _ _
  · exact .refl f

/-- A right-hand side takes nothing away, occurrence by occurrence. -/
theorem le_absorbAll (nonterminals : Nat) (first : FirstSets) (lhs : Nat) (rhs : List Nat)
    (f : FollowSets) : Le f (absorbAll nonterminals first lhs rhs f) := by
  induction rhs generalizing f with
  | nil => exact .refl f
  | cons s rest ih => exact (le_absorbOccurrence _ _ _ _ _ _).trans (ih _)

theorem le_pass (productions : List Production) (nonterminals : Nat) (first : FirstSets)
    (f : FollowSets) : Le f (pass productions nonterminals first f) :=
  le_foldl Le Le.refl (fun _ _ _ => Le.trans)
    (fun f (p : Production) => le_absorbAll nonterminals first p.lhs p.rhs f) productions f

/-- What can begin behind an occurrence of a nonterminal is added. -/
theorem mem_absorbOccurrence_of_begins {lhs symbol : Nat} {rest : List Nat}
    (hsymbol : symbol < nonterminals) (hlt : symbol < f.length) {t : Nat}
    (ht : t ∈ (first.ofSentence rest).1) :
    t ∈ of (absorbOccurrence nonterminals first lhs symbol rest f) symbol := by
  have hmem : t ∈ of (f.modify symbol (· ∪ (first.ofSentence rest).1)) symbol :=
    (mem_getD_modify_union f symbol _ symbol t).2 (.inr ⟨rfl, hlt, ht⟩)
  unfold absorbOccurrence
  rw [if_pos hsymbol]
  dsimp only
  split
  · exact (le_modify_union _ _ _).mem symbol t hmem
  · exact hmem

/-- What can come after the left-hand side is added if all that is behind the occurrence can vanish. -/
theorem mem_absorbOccurrence_of_vanishes {lhs symbol : Nat} {rest : List Nat}
    (hsymbol : symbol < nonterminals) (hlt : symbol < f.length)
    (hrest : (first.ofSentence rest).2 = true) {t : Nat} (ht : t ∈ of f lhs) :
    t ∈ of (absorbOccurrence nonterminals first lhs symbol rest f) symbol := by
  by_cases hne : symbol = lhs
  -- an occurrence of the left-hand side itself is left out, but there is nothing to add then
  · subst hne
    exact (le_absorbOccurrence _ _ _ _ _ _).mem symbol t ht
  · have hcond : ((first.ofSentence rest).2 && symbol != lhs) = true := by
      rw [hrest, bne_iff_ne.2 hne]
      rfl
    unfold absorbOccurrence
    rw [if_pos hsymbol]
    dsimp only
    rw [if_pos hcond]
    refine (mem_getD_modify_union _ symbol _ symbol t).2 (.inr ⟨rfl, ?_, ?_⟩)
    · rwa [List.length_modify]
    · exact (le_modify_union f symbol _).mem lhs t ht

/-- Sets that a right-hand side keeps are kept by each occurrence on it. -/
theorem absorbOccurrence_of_absorbAll {lhs symbol : Nat} {before rest : List Nat}
    (h : absorbAll nonterminals first lhs (before ++ symbol :: rest) f = f) :
    absorbOccurrence nonterminals first lhs symbol rest f = f := by
  induction before with
  | nil =>
    have hrest := le_absorbAll nonterminals first lhs rest
      (absorbOccurrence nonterminals first lhs symbol rest f)
    have h' : absorbAll nonterminals first lhs rest
      (absorbOccurrence nonterminals first lhs symbol rest f) = f := h
    rw [h'] at hrest
    exact hrest.antisymm (le_absorbOccurrence _ _ _ _ _ _)
  | cons s before ih =>
    -- the occurrences behind the first only add, so the first has added nothing either
    have hrest := le_absorbAll nonterminals first lhs (before ++ symbol :: rest)
      (absorbOccurrence nonterminals first lhs s (before ++ symbol :: rest) f)
    have h' : absorbAll nonterminals first lhs (before ++ symbol :: rest)
      (absorbOccurrence nonterminals first lhs s (before ++ symbol :: rest) f) = f := h
    rw [h'] at hrest
    have hhead := hrest.antisymm (le_absorbOccurrence _ _ _ _ _ _)
    rw [hhead] at h'
    exact ih h'

/-! ## What there is to add -/

/-- What can come after a nonterminal: the terminals, and the end marker, which may be any number. -/
def known (nonterminals symbols endMarker : Nat) : Finset Nat :=
  insert endMarker (Finset.Ico nonterminals symbols)

/-- What is known is the end marker or a terminal. -/
theorem mem_known {t : Nat} : t ∈ known nonterminals symbols endMarker ↔
    t = endMarker ∨ nonterminals ≤ t ∧ t < symbols := by
  rw [known, Finset.mem_insert, Finset.mem_Ico]

/-- There are not more than the symbols and the end marker. -/
theorem card_known_le (nonterminals symbols endMarker : Nat) :
    (known nonterminals symbols endMarker).card ≤ symbols + 1 := by
  have hinsert := Finset.card_insert_le endMarker (Finset.Ico nonterminals symbols)
  rw [Nat.card_Ico] at hinsert
  exact hinsert.trans (Nat.succ_le_succ (Nat.sub_le _ _))

/-- There are places for so many nonterminals, and nothing is a member that cannot be known. -/
structure Within (nonterminals symbols endMarker : Nat) (f : FollowSets) : Prop where
  length : f.length = nonterminals
  known : ∀ s, ∀ t ∈ of f s, t ∈ known nonterminals symbols endMarker

/-- Members that can be known may be added anywhere. -/
theorem Within.modify_union (h : Within nonterminals symbols endMarker f) (s : Nat)
    {added : SortedSet Nat} (hadded : ∀ t ∈ added, t ∈ FollowSets.known nonterminals symbols endMarker) :
    Within nonterminals symbols endMarker (f.modify s (· ∪ added)) where
  length := (List.length_modify ..).trans h.length
  known s' t ht := by
    rcases (mem_getD_modify_union f s added s' t).1 ht with ht | ⟨-, -, ht⟩
    · exact h.known s' t ht
    · exact hadded t ht

/-- What an occurrence adds is from FIRST sets, or from the sets themselves. -/
theorem Within.absorbOccurrence (h : Within nonterminals symbols endMarker f)
    (hfirst : first.Within nonterminals symbols) (lhs symbol : Nat) (rest : List Nat) :
    Within nonterminals symbols endMarker
      (absorbOccurrence nonterminals first lhs symbol rest f) := by
  have hbegins := h.modify_union symbol fun t (ht : t ∈ (first.ofSentence rest).1) =>
    mem_known.2 (.inr (hfirst.terminal_of_mem_ofSentence ht))
  unfold FollowSets.absorbOccurrence
  dsimp only
  split
  · split
    · exact hbegins.modify_union symbol (hbegins.known lhs)
    · exact hbegins
  · exact h

/-- What a right-hand side adds can be known, occurrence by occurrence. -/
theorem Within.absorbAll (h : Within nonterminals symbols endMarker f)
    (hfirst : first.Within nonterminals symbols) (lhs : Nat) (rhs : List Nat) :
    Within nonterminals symbols endMarker (absorbAll nonterminals first lhs rhs f) := by
  induction rhs generalizing f with
  | nil => exact h
  | cons s rest ih => exact ih (h.absorbOccurrence hfirst lhs s rest)

/-- What a pass adds can be known. -/
theorem Within.pass (h : Within nonterminals symbols endMarker f)
    (hfirst : first.Within nonterminals symbols) (productions : List Production) :
    Within nonterminals symbols endMarker (pass productions nonterminals first f) := by
  induction productions generalizing f with
  | nil => exact h
  | cons p rest ih => exact ih (h.absorbAll hfirst p.lhs p.rhs)

/-- At the beginning, only the end marker is known, behind the start symbol. -/
theorem mem_of_initial (nonterminals start endMarker s t : Nat) :
    t ∈ of (initial nonterminals start endMarker) s ↔
      (s = start ∧ start < nonterminals) ∧ t = endMarker := by
  show t ∈ (List.modify (List.replicate nonterminals ∅) start
    fun f => SortedSet.insert f endMarker).getD s ∅ ↔ _
  rw [List.getD_eq_getElem?_getD, List.getElem?_modify, List.getElem?_replicate]
  -- a set for each nonterminal, and in that of the start symbol the end marker
  by_cases hs : s < nonterminals
  · rw [if_pos hs]
    show t ∈ (if start = s then SortedSet.insert ∅ endMarker else ∅) ↔ _
    by_cases hstart : start = s
    · subst hstart
      rw [if_pos rfl, SortedSet.mem_insert, and_iff_right ⟨rfl, hs⟩]
      exact or_iff_left (SortedSet.not_mem_empty t)
    · rw [if_neg hstart]
      exact ⟨fun h => absurd h (SortedSet.not_mem_empty t), fun h => absurd h.1.1.symm hstart⟩
  · rw [if_neg hs]
    exact ⟨fun h => absurd h (SortedSet.not_mem_empty t), fun h => absurd (h.1.1 ▸ h.1.2) hs⟩

theorem within_initial (nonterminals symbols start endMarker : Nat) :
    Within nonterminals symbols endMarker (initial nonterminals start endMarker) where
  length := (List.length_modify ..).trans List.length_replicate
  known s t ht := mem_known.2 (.inl ((mem_of_initial _ _ _ s t).1 ht).2)

/-- What the sets say: `(s, t)` for a `t` that can come after `s`. -/
def facts (nonterminals symbols endMarker : Nat) (f : FollowSets) : Finset (Nat × Nat) :=
  (Finset.range nonterminals ×ˢ known nonterminals symbols endMarker).filter fun x => x.2 ∈ of f x.1

theorem mem_facts {s t : Nat} : (s, t) ∈ facts nonterminals symbols endMarker f ↔
    (s < nonterminals ∧ t ∈ known nonterminals symbols endMarker) ∧ t ∈ of f s := by
  unfold facts
  rw [Finset.mem_filter, Finset.mem_product, Finset.mem_range]

/-- Sets that say no more than others are below them. -/
theorem Within.le_of_facts_subset (h : Within nonterminals symbols endMarker f)
    (h' : Within nonterminals symbols endMarker f')
    (hsub : facts nonterminals symbols endMarker f ⊆ facts nonterminals symbols endMarker f') :
    Le f f' where
  length := h'.length.trans h.length.symm
  mem s t ht := by
    have hs : s < nonterminals := h.length ▸ lt_length_of_mem_getD ht
    exact (mem_facts.1 (hsub (mem_facts.2 ⟨⟨hs, h.known s t ht⟩, ht⟩))).2

/-- Sets that say more have more facts. -/
theorem Le.facts_subset (h : Le f f') :
    facts nonterminals symbols endMarker f ⊆ facts nonterminals symbols endMarker f' := by
  rintro ⟨s, t⟩ hst
  obtain ⟨hrange, ht⟩ := mem_facts.1 hst
  exact mem_facts.2 ⟨hrange, h.mem s t ht⟩

/-! ## The sets that are settled on -/

section

variable {start : Nat} (hfirst : first.Within nonterminals symbols)
include hfirst

/-- Sets that a pass changes say more than before, or they would be the same. -/
theorem Within.facts_ssubset (h : Within nonterminals symbols endMarker f)
    (hne : FollowSets.pass productions nonterminals first f ≠ f) :
    facts nonterminals symbols endMarker f ⊂
      facts nonterminals symbols endMarker (FollowSets.pass productions nonterminals first f) := by
  have hle := le_pass productions nonterminals first f
  refine hle.facts_subset.ssubset_of_ne fun heq => hne ?_
  exact ((h.pass hfirst productions).le_of_facts_subset h heq.ge).antisymm hle

/-- The settled sets have nothing that cannot be known. -/
theorem within_settled (productions : List Production) (start endMarker : Nat) :
    Within nonterminals symbols endMarker
      (settled productions nonterminals start endMarker first).1 :=
  settle_induction (Within nonterminals symbols endMarker)
    (fun _ h => h.pass hfirst productions) _ _ (within_initial _ _ _ _)

/-- One more pass does not add anything. -/
theorem pass_settled (productions : List Production) (start endMarker : Nat) :
    pass productions nonterminals first
        (settled productions nonterminals start endMarker first).1 =
      (settled productions nonterminals start endMarker first).1 := by
  refine settle_fixed (Within nonterminals symbols endMarker)
    (facts nonterminals symbols endMarker)
    (Finset.range nonterminals ×ˢ known nonterminals symbols endMarker)
    (fun _ h => h.pass hfirst productions) (fun _ _ => Finset.filter_subset _ _)
    (fun _ h => h.facts_ssubset hfirst) 1 (within_initial _ _ _ _) ?_
  -- there is more fuel than there are facts that can be known
  rw [Finset.card_product, Finset.card_range, hfirst.first_length]
  exact Nat.lt_succ_of_le (Nat.mul_le_mul_left _ (card_known_le _ _ _))

/-- No occurrence of a nonterminal adds anything. -/
theorem absorbOccurrence_settled {p : Production} (hp : p ∈ productions) {before rest : List Nat}
    {symbol : Nat} (hrhs : p.rhs = before ++ symbol :: rest) :
    absorbOccurrence nonterminals first p.lhs symbol rest
        (settled productions nonterminals start endMarker first).1 =
      (settled productions nonterminals start endMarker first).1 := by
  have hall := foldl_fixed Le (fun _ _ _ => Le.trans) Le.refl (fun _ _ => Le.antisymm)
    (fun f (p : Production) => le_absorbAll nonterminals first p.lhs p.rhs f)
    (pass_settled hfirst productions start endMarker) hp
  rw [hrhs] at hall
  exact absorbOccurrence_of_absorbAll hall

/-- What can begin behind a nonterminal on a right-hand side can come after it. -/
theorem mem_of_settled_of_begins {p : Production} (hp : p ∈ productions) {before rest : List Nat}
    {symbol : Nat} (hrhs : p.rhs = before ++ symbol :: rest) (hsymbol : symbol < nonterminals)
    {t : Nat} (ht : t ∈ (first.ofSentence rest).1) :
    t ∈ of (settled productions nonterminals start endMarker first).1 symbol := by
  have hlen := (within_settled hfirst productions start endMarker).length
  rw [← absorbOccurrence_settled hfirst hp hrhs]
  exact mem_absorbOccurrence_of_begins hsymbol (hlen.symm ▸ hsymbol) ht

/-- If all that stands behind a nonterminal on a right-hand side can vanish, what can come after the
left-hand side can come after the nonterminal. -/
theorem mem_of_settled_of_vanishes {p : Production} (hp : p ∈ productions)
    {before rest : List Nat} {symbol : Nat} (hrhs : p.rhs = before ++ symbol :: rest)
    (hsymbol : symbol < nonterminals) (hrest : (first.ofSentence rest).2 = true) {t : Nat}
    (ht : t ∈ of (settled productions nonterminals start endMarker first).1 p.lhs) :
    t ∈ of (settled productions nonterminals start endMarker first).1 symbol := by
  have hlen := (within_settled hfirst productions start endMarker).length
  rw [← absorbOccurrence_settled hfirst hp hrhs]
  exact mem_absorbOccurrence_of_vanishes hsymbol (hlen.symm ▸ hsymbol) hrest ht

end

/-- The end marker can come after the start symbol. -/
theorem endMarker_mem_settled (productions : List Production) {start endMarker : Nat}
    (hstart : start < nonterminals) :
    endMarker ∈ of (settled productions nonterminals start endMarker first).1 start :=
  settle_induction (fun f => endMarker ∈ of f start)
    (fun f h => (le_pass productions nonterminals first f).mem start _ h) _ _
    ((mem_of_initial _ _ _ _ _).2 ⟨⟨rfl, hstart⟩, rfl⟩)

end FollowSets

end GuardedGrammar
