/-
  The automaton is built within bounds.

  Each of the loops that build an automaton goes on until a pass changes nothing, with sets that change
  during the pass.  All of them end, since there is only so much to find.  FIRST sets change only for
  left-hand sides, so a pass that changes them adds a terminal or the flag of a nonterminal
  (`FirstSets.Within.findings_ssubset`); with `n` nonterminals and `t` terminals there are `n * (t + 1)`
  of these, and one more pass to see that there are no others.  FOLLOW sets are those of nonterminals
  anyway, and the end marker is a terminal, so there are `n * t` members.

  Main statement: `construction_bounded`, for any productions over so many symbols.
-/
import GuardedGrammar.Proofs.Beginnings
import GuardedGrammar.Proofs.Noting
import GuardedGrammar.Proofs.Rounds

namespace GuardedGrammar

variable {productions : List Production} {nonterminals terminals symbols endMarker : Nat}

/-! ## FIRST sets -/

namespace FirstSets

variable {f f' : FirstSets}

theorem Within.sized (h : f.Within nonterminals symbols) : f.Sized symbols where
  first := h.first_length
  nullable := h.nullable_length

theorem sized_initial (nonterminals symbols : Nat) : (initial nonterminals symbols).Sized symbols :=
  (within_initial nonterminals symbols).sized

/-- A pass adds nothing for a symbol that is no left-hand side. -/
theorem pass_of_ne {s : Nat} (h : ∀ p ∈ productions, p.lhs ≠ s) (f : FirstSets) :
    (∀ t, t ∈ (f.pass productions).of s ↔ t ∈ f.of s) ∧
      ((f.pass productions).isNullable s = true ↔ f.isNullable s = true) := by
  induction productions generalizing f with
  | nil => exact ⟨fun _ => Iff.rfl, Iff.rfl⟩
  | cons p rest ih =>
    have hp : s ≠ p.lhs := (h p List.mem_cons_self).symm
    obtain ⟨hfirst, hnullable⟩ := ih (fun q hq => h q (List.mem_cons_of_mem p hq)) (f.absorb p)
    refine ⟨fun t => (hfirst t).trans ?_, hnullable.trans ?_⟩
    · -- the production in front adds to its own left-hand side only
      rw [mem_of_absorb]
      exact or_iff_left fun hadded => hp hadded.1
    · -- so it does with the flag
      rw [isNullable_absorb]
      exact or_iff_left fun hadded => hp hadded.1

/-- There is something to find for left-hand sides only. -/
theorem lt_of_pass (hrange : InRange nonterminals symbols productions) {s : Nat}
    (h : (∃ t, t ∈ (f.pass productions).of s ∧ t ∉ f.of s) ∨
      (f.pass productions).isNullable s = true ∧ f.isNullable s = false) : s < nonterminals := by
  refine Nat.lt_of_not_le fun hge => ?_
  have hne : ∀ p ∈ productions, p.lhs ≠ s := fun p hp hs =>
    absurd (hrange.lhs p hp) (Nat.not_lt.2 (hs ▸ hge))
  obtain ⟨hfirst, hnullable⟩ := pass_of_ne hne f
  rcases h with ⟨t, ht, hnot⟩ | ⟨hs, hnot⟩
  · exact hnot ((hfirst t).1 ht)
  · rw [hnullable.1 hs] at hnot
    exact nomatch hnot

/-- What there is to find: `(s, t)` for a terminal `t` that a nonterminal `s` can begin with, and
`(s, symbols)` if `s` can vanish. -/
def findable (nonterminals symbols : Nat) : Finset (Nat × Nat) :=
  Finset.range nonterminals ×ˢ Finset.Ico nonterminals (symbols + 1)

/-- A nonterminal can begin with each of the terminals, and it can vanish. -/
theorem card_findable (nonterminals terminals : Nat) :
    (findable nonterminals (nonterminals + terminals)).card = nonterminals * (terminals + 1) := by
  rw [findable, Finset.card_product, Finset.card_range, Nat.card_Ico, Nat.add_assoc,
    Nat.add_sub_cancel_left]

/-- What the sets have found. -/
def findings (nonterminals symbols : Nat) (f : FirstSets) : Finset (Nat × Nat) :=
  (findable nonterminals symbols).filter fun x =>
    x.2 ∈ f.of x.1 ∨ x.2 = symbols ∧ f.isNullable x.1 = true

/-- What has been found is of the kind that can be, and the sets say so. -/
theorem mem_findings {s t : Nat} : (s, t) ∈ findings nonterminals symbols f ↔
    (s < nonterminals ∧ nonterminals ≤ t ∧ t < symbols + 1) ∧
      (t ∈ f.of s ∨ t = symbols ∧ f.isNullable s = true) := by
  unfold findings findable
  rw [Finset.mem_filter, Finset.mem_product, Finset.mem_range, Finset.mem_Ico]

/-- Sets that say more have found more. -/
theorem Le.findings_subset (h : f.Le f') :
    findings nonterminals symbols f ⊆ findings nonterminals symbols f' := by
  rintro ⟨s, t⟩ hst
  obtain ⟨hfindable, hsays⟩ := mem_findings.1 hst
  exact mem_findings.2 ⟨hfindable, hsays.imp (h.first s t) (And.imp_right (h.nullable s))⟩

/-- A pass that changes the sets finds something. -/
theorem Within.findings_ssubset (hrange : InRange nonterminals symbols productions)
    (hle : nonterminals ≤ symbols) (h : f.Within nonterminals symbols)
    (hne : f.pass productions ≠ f) :
    findings nonterminals symbols f ⊂ findings nonterminals symbols (f.pass productions) := by
  have hpass := le_pass productions f
  have hsub : findings nonterminals symbols f ⊆
      findings nonterminals symbols (f.pass productions) := hpass.findings_subset
  obtain ⟨s, hs⟩ := hpass.ne_iff_grows.1 hne
  have hlt := lt_of_pass hrange hs
  refine (Finset.ssubset_iff_of_subset hsub).2 ?_
  -- what is new is a terminal or a flag, and either is a pair that was not there
  rcases hs with ⟨t, ht, hnew⟩ | ⟨hvanishes, hnew⟩
  · obtain ⟨hge, hlt'⟩ := (h.pass productions).terminal s t ht
    refine ⟨(s, t), ?_, fun hold => ?_⟩
    · exact mem_findings.2 ⟨⟨hlt, hge, Nat.lt_succ_of_lt hlt'⟩, .inl ht⟩
    · rcases (mem_findings.1 hold).2 with hmem | ⟨rfl, -⟩
      · exact hnew hmem
      · exact absurd hlt' (Nat.lt_irrefl t)
  · refine ⟨(s, symbols), ?_, fun hold => ?_⟩
    · exact mem_findings.2 ⟨⟨hlt, hle, Nat.lt_succ_self symbols⟩, .inr ⟨rfl, hvanishes⟩⟩
    · rcases (mem_findings.1 hold).2 with hmem | ⟨-, hnull⟩
      · exact absurd (h.terminal s symbols hmem).2 (Nat.lt_irrefl symbols)
      · rw [hnull] at hnew
        exact nomatch hnew

/-- FIRST sets are settled after one pass for each finding, and one more. -/
theorem settles_settled
    (hrange : InRange nonterminals (nonterminals + terminals) productions) :
    Settles (extend productions) Le Grows (Sized (nonterminals + terminals))
      (initial nonterminals (nonterminals + terminals))
      (settled productions nonterminals (nonterminals + terminals)).2
      (nonterminals * (terminals + 1) + 1)
      (settled productions nonterminals (nonterminals + terminals)).1 := by
  have hle : nonterminals ≤ nonterminals + terminals := Nat.le_add_right _ _
  have hlhs : ∀ p ∈ productions, p.lhs < nonterminals + terminals :=
    fun p hp => Nat.lt_of_lt_of_le (hrange.lhs p hp) hle
  have hpasses := settle_snd_add_card_le (Within nonterminals (nonterminals + terminals))
    (findings nonterminals (nonterminals + terminals))
    (findable nonterminals (nonterminals + terminals))
    (fun _ h => h.pass productions) (fun _ _ => Finset.filter_subset _ _)
    (fun _ h => h.findings_ssubset hrange hle)
    ((nonterminals + terminals) * (nonterminals + terminals + 1) + 1) 1
    (within_initial nonterminals (nonterminals + terminals))
  -- each pass but the last uses up a pair
  rw [card_findable] at hpasses
  refine settles_settle (fun _ h => extend_eq hlhs h) (fun _ h => h.pass productions)
    (le_pass productions) (fun _ _ => Le.ne_iff_grows) (sized_initial _ _)
    (pass_settled productions nonterminals _) ?_
  omega

end FirstSets

/-! ## FOLLOW sets -/

namespace FollowSets

variable {first : FirstSets}

/-- An end marker that is a terminal is known with the terminals. -/
theorem card_known (h : IsTerminalId nonterminals (nonterminals + terminals) endMarker) :
    (known nonterminals (nonterminals + terminals) endMarker).card = terminals := by
  have hmem : endMarker ∈ Finset.Ico nonterminals (nonterminals + terminals) :=
    Finset.mem_Ico.2 h
  rw [known, Finset.insert_eq_self.2 hmem, Nat.card_Ico, Nat.add_sub_cancel_left]

theorem length_initial (nonterminals start endMarker : Nat) :
    (initial nonterminals start endMarker).length = nonterminals :=
  (List.length_modify ..).trans List.length_replicate

/-- FOLLOW sets are settled after one pass for each member, and one more, whatever FIRST sets they are
made from. -/
theorem settles_settled (hfirst : first.Within nonterminals (nonterminals + terminals))
    (hend : IsTerminalId nonterminals (nonterminals + terminals) endMarker)
    (productions : List Production) (start : Nat) :
    Settles (extend productions nonterminals first) Le Grows (fun f => f.length = nonterminals)
      (initial nonterminals start endMarker)
      (settled productions nonterminals start endMarker first).2 (nonterminals * terminals + 1)
      (settled productions nonterminals start endMarker first).1 := by
  have hpasses := settle_snd_add_card_le
    (Within nonterminals (nonterminals + terminals) endMarker)
    (facts nonterminals (nonterminals + terminals) endMarker)
    (Finset.range nonterminals ×ˢ known nonterminals (nonterminals + terminals) endMarker)
    (fun _ h => h.pass hfirst productions) (fun _ _ => Finset.filter_subset _ _)
    (fun _ h => h.facts_ssubset hfirst)
    (nonterminals * (first.first.length + 1) + 1) 1
    (within_initial nonterminals (nonterminals + terminals) start endMarker)
  rw [Finset.card_product, Finset.card_range, card_known hend] at hpasses
  refine settles_settle (fun _ h => extend_eq productions first h)
    (fun f h => (le_pass productions nonterminals first f).length.trans h)
    (le_pass productions nonterminals first) (fun _ _ => Le.ne_iff_grows)
    (length_initial nonterminals start endMarker) (pass_settled hfirst productions start endMarker) ?_
  omega

end FollowSets

/-! ## All of it -/

/-- For productions with nonterminals on the left and symbols on the right, the FIRST sets are found in
`n * (t + 1) + 1` passes, the FOLLOW sets in `n * t + 1`, the closure of any set of items in one round
more than there are productions, and there are no more states than sets of items.  In each of the
loops, what a pass notes is whether something is new, nothing is lost, and one more pass after the last
changes nothing. -/
theorem construction_bounded (hrange : InRange nonterminals (nonterminals + terminals) productions)
    (hend : IsTerminalId nonterminals (nonterminals + terminals) endMarker) :
    Settles (FirstSets.extend productions) FirstSets.Le FirstSets.Grows
        (FirstSets.Sized (nonterminals + terminals))
        (FirstSets.initial nonterminals (nonterminals + terminals))
        (FirstSets.settled productions nonterminals (nonterminals + terminals)).2
        (nonterminals * (terminals + 1) + 1)
        (FirstSets.settled productions nonterminals (nonterminals + terminals)).1 ∧
      (∀ first : FirstSets, first.Within nonterminals (nonterminals + terminals) → ∀ start,
        Settles (FollowSets.extend productions nonterminals first) FollowSets.Le FollowSets.Grows
          (fun f => f.length = nonterminals) (FollowSets.initial nonterminals start endMarker)
          (FollowSets.settled productions nonterminals start endMarker first).2
          (nonterminals * terminals + 1)
          (FollowSets.settled productions nonterminals start endMarker first).1) ∧
      (∀ items : ItemSet, Settles (closeNoting productions nonterminals) ItemSet.Le ItemSet.Grows
        (fun _ => True) items
        (settle (closeOnce productions nonterminals) (productions.length + 1) 1 items).2
        (productions.length + 1) (closure productions nonterminals items)) ∧
      Discovers productions nonterminals (nonterminals + terminals)
        (2 ^ (productions.map fun p => p.rhs.length + 1).sum)
        (collection productions nonterminals (nonterminals + terminals)) := by
  refine ⟨FirstSets.settles_settled hrange, fun first hfirst start => ?_,
    settles_closure productions nonterminals, discovers_collection _ _ _⟩
  exact FollowSets.settles_settled hfirst hend productions start

/-- Of 21 passes that there can be, FIRST sets of lists behind a prefix take four, and of 17, FOLLOW
sets take two; the first state takes three rounds, and it is one of seven states. -/
theorem construction_hiddenRecursion : InRange 4 (4 + 4) FirstSets.hiddenRecursion ∧
    IsTerminalId 4 (4 + 4) 7 ∧
    (∃ first, Repeats (FirstSets.extend FirstSets.hiddenRecursion) (FirstSets.initial 4 (4 + 4)) 4
        first ∧ FirstSets.extend FirstSets.hiddenRecursion first = (false, first) ∧
      ∃ follow, Repeats (FollowSets.extend FirstSets.hiddenRecursion 4 first)
          (FollowSets.initial 4 0 7) 2 follow ∧
        FollowSets.extend FirstSets.hiddenRecursion 4 first follow = (false, follow)) ∧
    Repeats (closeNoting FirstSets.hiddenRecursion 4) {⟨0, 0⟩} 3
      (startState FirstSets.hiddenRecursion 4) ∧
    ∃ states : List ItemSet, Explores FirstSets.hiddenRecursion 4 (4 + 4) 0
        [startState FirstSets.hiddenRecursion 4] states ∧ states.length = 7 ∧
      states.length ≤ 2 ^ 16 := by
  have hrange : InRange 4 (4 + 4) FirstSets.hiddenRecursion := ⟨by decide, by decide⟩
  have hend : IsTerminalId 4 (4 + 4) 7 := by decide
  obtain ⟨hfirst, hfollow, hclosure, hstates⟩ := construction_bounded hrange hend
  have hbegins := FirstSets.within_settled FirstSets.hiddenRecursion 4 (4 + 4)
  refine ⟨hrange, hend, ⟨_, (hfirst.run 4 _).2 ⟨?_, rfl⟩, hfirst.stable, _,
    ((hfollow _ hbegins 0).run 2 _).2 ⟨?_, rfl⟩, (hfollow _ hbegins 0).stable⟩,
    ((hclosure _).run 3 _).2 ⟨?_, rfl⟩, _, (hstates.run _).2 rfl, ?_, hstates.bounded⟩
  · decide +kernel
  · decide +kernel
  · decide +kernel
  · decide +kernel

end GuardedGrammar
