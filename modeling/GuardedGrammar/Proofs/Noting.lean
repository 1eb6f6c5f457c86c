/-
  Passes over FIRST and FOLLOW sets note what they change.

  Members are added one by one, and a member is noted if it is new (`foldl_insertNoting`).  What a
  production or an occurrence adds comes to a few such additions, none of which takes anything away, so
  it is noted if and only if the sets are different afterwards; and so is what a pass adds
  (`FirstSets.extend_eq`, `FollowSets.extend_eq`).  Sets that are different after something has been
  added to them have grown (`FirstSets.Le.ne_iff_grows`, `FollowSets.Le.ne_iff_grows`).

  This holds where there is a set for each left-hand side, or for each nonterminal.
-/
import GuardedGrammar.Proofs.Follow
import GuardedGrammar.Proofs.Passes
import GuardedGrammar.Proofs.SententialForm

namespace GuardedGrammar

/-! ## Adding members -/

section

variable {sets : List (SortedSet Nat)} {place : Nat}

/-- Members that are added to one set one by one are added together. -/
theorem foldl_modify_insert (place : Nat) (l : List Nat) (sets : List (SortedSet Nat)) :
    l.foldl (fun sets t => sets.modify place (·.insert t)) sets =
      sets.modify place (·.insertAll l) := by
  induction l generalizing sets with
  | nil => exact (List.modify_id _ _).symm
  | cons t l ih =>
    rw [List.foldl_cons, ih, List.modify_modify_eq]
    rfl

/-- A member is added like a set that holds nothing else. -/
theorem modify_insert_eq (sets : List (SortedSet Nat)) (place t : Nat) :
    sets.modify place (·.insert t) = sets.modify place (· ∪ {t}) := by
  refine congrArg (sets.modify place) (funext fun s => SortedSet.ext fun x => ?_)
  rw [SortedSet.mem_insert, SortedSet.mem_union, SortedSet.mem_singleton, Or.comm]

/-- A member is new if and only if the sets are different with it. -/
theorem insertNoting_eq (changed : Bool) (h : place < sets.length) (t : Nat) :
    insertNoting place (changed, sets) t =
      (changed || decide (sets.modify place (·.insert t) ≠ sets),
        sets.modify place (·.insert t)) := by
  have hknown : t ∈ sets.getD place ∅ ↔ sets.modify place (·.insert t) = sets := by
    rw [modify_insert_eq]
    constructor
    · intro ht
      refine ext_of_mem_getD (List.length_modify ..) fun s x => ?_
      rw [mem_getD_modify_union, SortedSet.mem_singleton]
      exact or_iff_left_of_imp fun ⟨hs, _, hx⟩ => hs ▸ hx ▸ ht
    · intro hsame
      -- the member is there afterwards, and if nothing has changed it was there before
      have ht := (mem_getD_modify_union sets place {t} place t).2
        (.inr ⟨rfl, h, (SortedSet.mem_singleton t t).2 rfl⟩)
      rwa [hsame] at ht
  show (changed || !decide (t ∈ sets.getD place ∅), _) = _
  rw [← decide_not]
  simp only [hknown, ne_eq]

/-- Members are noted if any of them is new. -/
theorem foldl_insertNoting (changed : Bool) (h : place < sets.length) (added : SortedSet Nat) :
    added.toList.foldl (insertNoting place) (changed, sets) =
      (changed || decide (sets.modify place (· ∪ added) ≠ sets),
        sets.modify place (· ∪ added)) := by
  have hle : ∀ (sets : FollowSets) (t : Nat),
      FollowSets.Le sets (sets.modify place (·.insert t)) := by
    intro sets t
    rw [modify_insert_eq]
    exact FollowSets.le_modify_union sets place {t}
  have hall := foldl_noting (fun sets : FollowSets => place < sets.length)
    (fun sets t => sets.modify place (·.insert t)) FollowSets.Le.refl
    (fun _ _ _ => FollowSets.Le.trans) (fun _ _ => FollowSets.Le.antisymm) hle
    (l := added.toList) (fun sets hsets t _ => by rwa [List.length_modify])
    (fun changed sets hsets t _ => insertNoting_eq changed hsets t) changed h
  rwa [foldl_modify_insert] at hall

end

/-! ## FIRST sets -/

namespace FirstSets

variable {productions : List Production} {nonterminals symbols : Nat} {f f' : FirstSets}

/-- There is a set and a flag for each of so many symbols. -/
structure Sized (symbols : Nat) (f : FirstSets) : Prop where
  first : f.first.length = symbols
  nullable : f.nullable.length = symbols

theorem Sized.absorb (h : f.Sized symbols) (p : Production) : (f.absorb p).Sized symbols where
  first := (f.length_absorb p).1.trans h.first
  nullable := (f.length_absorb p).2.trans h.nullable

theorem Sized.pass (h : f.Sized symbols) (productions : List Production) :
    (f.pass productions).Sized symbols where
  first := (le_pass productions f).first_length.trans h.first
  nullable := (le_pass productions f).nullable_length.trans h.nullable

/-- There is something that only the latter say. -/
def Grows (f f' : FirstSets) : Prop :=
  ∃ s, (∃ t, t ∈ f'.of s ∧ t ∉ f.of s) ∨ f'.isNullable s = true ∧ f.isNullable s = false

/-- FIRST sets that have been added to are different if and only if there is something new. -/
theorem Le.ne_iff_grows (h : f.Le f') : f' ≠ f ↔ f.Grows f' := by
  constructor
  · intro hne
    refine Classical.byContradiction fun hnone => hne ?_
    refine Le.antisymm ⟨h.first_length.symm, h.nullable_length.symm, fun s t ht => ?_,
      fun s hs => ?_⟩ h
    · exact Classical.byContradiction fun hnot => hnone ⟨s, .inl ⟨t, ht, hnot⟩⟩
    · exact Classical.byContradiction fun hnot =>
        hnone ⟨s, .inr ⟨hs, eq_false_of_ne_true hnot⟩⟩
  · rintro ⟨s, ⟨t, ht, hnot⟩ | ⟨hs, hnot⟩⟩ rfl
    · exact hnot ht
    · rw [hs] at hnot
      exact nomatch hnot

/-- What a production adds is noted if the sets or the flags are different with it. -/
theorem absorbNoting_eq (changed : Bool) {p : Production} (h : f.Sized symbols)
    (hp : p.lhs < symbols) :
    absorbNoting (changed, f) p = (changed || decide (f.absorb p ≠ f), f.absorb p) := by
  have hfirst : p.lhs < f.first.length := h.first.symm ▸ hp
  have hnullable : p.lhs < f.nullable.length := h.nullable.symm ▸ hp
  have hflag : f.isNullable p.lhs = f.nullable[p.lhs] := by
    unfold isNullable
    rw [List.getD_eq_getElem?_getD, List.getElem?_eq_getElem hnullable]
    rfl
  have hsame : ∀ first, (({ f with first } : FirstSets) ≠ f) = (first ≠ f.first) := fun first =>
    propext (not_congr ⟨congrArg FirstSets.first, fun he => he ▸ rfl⟩)
  have habsorb : f.absorb p = ⟨f.first.modify p.lhs (· ∪ (f.ofSentence p.rhs).1),
      if (f.ofSentence p.rhs).2 then f.nullable.set p.lhs true else f.nullable⟩ := rfl
  unfold absorbNoting
  dsimp only
  rw [foldl_insertNoting changed hfirst, habsorb]
  cases (f.ofSentence p.rhs).2 with
  | false =>
    simp only [Bool.false_and, Bool.false_eq_true, if_false, hsame]
  | true =>
    cases hnull : f.isNullable p.lhs with
    | true =>
      -- the flag has been set before
      have hset : f.nullable.set p.lhs true = f.nullable := by
        rw [← hnull, hflag, List.set_getElem_self]
      simp only [Bool.not_true, Bool.and_false, Bool.false_eq_true, if_false, if_true, hset, hsame]
    | false =>
      -- the flag is set now, which no set of members can make up for
      have hne : ∀ first, (⟨first, f.nullable.set p.lhs true⟩ : FirstSets) ≠ f := by
        intro first he
        have hset : f.nullable.set p.lhs true = f.nullable := congrArg FirstSets.nullable he
        have hget : (f.nullable.set p.lhs true)[p.lhs]? = f.nullable[p.lhs]? := by rw [hset]
        rw [List.getElem?_set_self hnullable, List.getElem?_eq_getElem hnullable, ← hflag,
          hnull] at hget
        exact nomatch hget
      simp only [Bool.not_false, Bool.and_true, if_true, decide_eq_true (hne _), Bool.or_true]

/-- What a pass adds is noted if it is different sets or flags that the pass leaves. -/
theorem extend_eq (hrange : ∀ p ∈ productions, p.lhs < symbols) (h : f.Sized symbols) :
    extend productions f = (decide (f.pass productions ≠ f), f.pass productions) :=
  foldl_noting (Sized symbols) absorb Le.refl (fun _ _ _ => Le.trans) (fun _ _ => Le.antisymm) le_absorb
    (fun _ hf p _ => hf.absorb p) (fun changed _ hf p hp => absorbNoting_eq changed hf (hrange p hp))
    false h

end FirstSets

/-! ## FOLLOW sets -/

namespace FollowSets

variable {productions : List Production} {nonterminals : Nat} {first : FirstSets}
  {f f' : FollowSets}

/-- There is something that only the latter say. -/
def Grows (f f' : FollowSets) : Prop := ∃ s t, t ∈ of f' s ∧ t ∉ of f s

/-- FOLLOW sets that have been added to are different if and only if there is something new. -/
theorem Le.ne_iff_grows (h : Le f f') : f' ≠ f ↔ Grows f f' := by
  constructor
  · intro hne
    refine Classical.byContradiction fun hnone => hne (Le.antisymm ⟨h.length.symm, ?_⟩ h)
    intro s t ht
    exact Classical.byContradiction fun hnot => hnone ⟨s, t, ht, hnot⟩
  · rintro ⟨s, t, ht, hnot⟩ rfl
    exact hnot ht

/-- What an occurrence adds is noted if the sets are different with it. -/
theorem occurrenceNoting_eq (changed : Bool) (h : f.length = nonterminals) (lhs symbol : Nat)
    (rest : List Nat) : occurrenceNoting nonterminals first lhs symbol rest (changed, f) =
      (changed || decide (absorbOccurrence nonterminals first lhs symbol rest f ≠ f),
        absorbOccurrence nonterminals first lhs symbol rest f) := by
  unfold occurrenceNoting
  by_cases hsymbol : symbol < nonterminals
  · have hlt : symbol < f.length := h.symm ▸ hsymbol
    have hadds : absorbOccurrence nonterminals first lhs symbol rest f =
        if (first.ofSentence rest).2 && symbol != lhs then
          (f.modify symbol (· ∪ (first.ofSentence rest).1)).modify symbol
            (· ∪ of (f.modify symbol (· ∪ (first.ofSentence rest).1)) lhs)
        else f.modify symbol (· ∪ (first.ofSentence rest).1) := if_pos hsymbol
    rw [if_pos hsymbol, hadds]
    dsimp only
    rw [foldl_insertNoting changed hlt]
    by_cases hbehind : ((first.ofSentence rest).2 && symbol != lhs) = true
    · -- what may follow the left-hand side is added after what the rest may begin with
      have hlt' : symbol < (f.modify symbol (· ∪ (first.ofSentence rest).1)).length := by
        rwa [List.length_modify]
      rw [if_pos hbehind, if_pos hbehind, foldl_insertNoting _ hlt', Bool.or_assoc,
        decide_ne_or (fun _ _ => Le.antisymm) (le_modify_union f symbol _)
          (le_modify_union _ symbol _)]
    · rw [if_neg hbehind, if_neg hbehind]
  · -- a terminal has no set
    have hadds : absorbOccurrence nonterminals first lhs symbol rest f = f := if_neg hsymbol
    rw [if_neg hsymbol, hadds, decide_eq_false (not_not_intro rfl), Bool.or_false]

/-- By induction on the right-hand side. -/
theorem allNoting_eq (changed : Bool) (h : f.length = nonterminals) (lhs : Nat) (rhs : List Nat) :
    allNoting nonterminals first lhs rhs (changed, f) =
      (changed || decide (absorbAll nonterminals first lhs rhs f ≠ f),
        absorbAll nonterminals first lhs rhs f) := by
  induction rhs generalizing changed f with
  | nil =>
    show (changed, f) = (changed || decide (f ≠ f), f)
    rw [decide_eq_false (not_not_intro rfl), Bool.or_false]
  | cons symbol rest ih =>
    have hle := le_absorbOccurrence nonterminals first lhs symbol rest f
    have hrest := ih (changed || decide (absorbOccurrence nonterminals first lhs symbol rest f ≠ f))
      (hle.length.trans h)
    rw [allNoting, occurrenceNoting_eq changed h, hrest, absorbAll, Bool.or_assoc,
      decide_ne_or (fun _ _ => Le.antisymm) hle (le_absorbAll nonterminals first lhs rest _)]

/-- What a pass adds is noted if it is different sets that the pass leaves. -/
theorem extend_eq (productions : List Production) (first : FirstSets)
    (h : f.length = nonterminals) : extend productions nonterminals first f =
      (decide (pass productions nonterminals first f ≠ f),
        pass productions nonterminals first f) := by
  refine foldl_noting (fun f : FollowSets => f.length = nonterminals)
    (fun f (p : Production) => absorbAll nonterminals first p.lhs p.rhs f) Le.refl
    (fun _ _ _ => Le.trans) (fun _ _ => Le.antisymm)
    (fun f p => le_absorbAll nonterminals first p.lhs p.rhs f) (fun f hf p _ => ?_)
    (fun changed f hf p _ => allNoting_eq changed hf p.lhs p.rhs) false h
  exact (le_absorbAll nonterminals first p.lhs p.rhs f).length.trans hf

end FollowSets

end GuardedGrammar
