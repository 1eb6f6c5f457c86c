/-
  FIRST sets are exact.

  Whatever a pass adds is derived by the production that it is added for, so all that the sets say is
  witnessed by a derivation (`Witnessed`).  The other way round, a step of a derivation puts a right-hand
  side in the place of its left-hand side, and sets that are settled say of the left-hand side all that
  they say of the right-hand side.  So what the end of a derivation can begin with, its start can begin
  with as well (`settled_of_yields`), and a row that begins with a terminal says so itself.

  Main statement: `ofSentence_settled_exact`, a row of symbols can begin with a terminal by the sets
  exactly if a row that begins with it is derived, and can vanish exactly if the empty row is derived.
-/
import GuardedGrammar.Proofs.First
import GuardedGrammar.Proofs.SententialForm

namespace GuardedGrammar

namespace FirstSets

variable {productions : List Production} {nonterminals symbols : Nat} {f : FirstSets}

/-! ## Rows of symbols -/

/-- A row begins with what its first symbol begins with, or, if that can vanish, with what the rest
does. -/
theorem mem_ofSentence_cons (f : FirstSets) (s : Nat) (rest : List Nat) (t : Nat) :
    t ∈ (f.ofSentence (s :: rest)).1 ↔
      t ∈ f.of s ∨ f.isNullable s = true ∧ t ∈ (f.ofSentence rest).1 := by
  rw [ofSentence]
  split
  · rename_i hnull
    rw [SortedSet.mem_union]
    exact or_congr_right (and_iff_right hnull).symm
  · rename_i hnull
    exact (or_iff_left fun h => hnull h.1).symm

/-- A row vanishes if its first symbol and the rest do. -/
theorem vanishes_ofSentence_cons (f : FirstSets) (s : Nat) (rest : List Nat) :
    (f.ofSentence (s :: rest)).2 = true ↔
      f.isNullable s = true ∧ (f.ofSentence rest).2 = true := by
  rw [ofSentence]
  split
  · rename_i hnull
    exact (and_iff_right hnull).symm
  · rename_i hnull
    exact ⟨fun h => (nomatch h), fun h => absurd h.1 hnull⟩

/-- A row vanishes if both of its parts do. -/
theorem vanishes_ofSentence_append (f : FirstSets) (a b : List Nat) :
    (f.ofSentence (a ++ b)).2 = true ↔
      (f.ofSentence a).2 = true ∧ (f.ofSentence b).2 = true := by
  induction a with
  | nil => exact (and_iff_right rfl).symm
  | cons s a ih =>
    rw [List.cons_append, vanishes_ofSentence_cons, vanishes_ofSentence_cons, ih, and_assoc]

/-- A row begins as its first part does, or as its second part does if the first can vanish. -/
theorem mem_ofSentence_append (f : FirstSets) (a b : List Nat) (t : Nat) :
    t ∈ (f.ofSentence (a ++ b)).1 ↔
      t ∈ (f.ofSentence a).1 ∨ (f.ofSentence a).2 = true ∧ t ∈ (f.ofSentence b).1 := by
  induction a with
  | nil =>
    refine Iff.symm ((or_iff_right (SortedSet.not_mem_empty t)).trans (and_iff_right rfl))
  | cons s a ih =>
    rw [List.cons_append, mem_ofSentence_cons, mem_ofSentence_cons, vanishes_ofSentence_cons, ih,
      and_or_left, or_assoc, and_assoc]

/-! ## What the sets say is derived -/

/-- All that the sets say is witnessed by a derivation. -/
structure Witnessed (productions : List Production) (f : FirstSets) : Prop where
  begins : ∀ s, ∀ t ∈ f.of s, ∃ rest, Yields productions [s] (t :: rest)
  vanishes : ∀ s, f.isNullable s = true → Yields productions [s] []

/-- A row that vanishes by the sets is derived away, symbol by symbol. -/
theorem Witnessed.yields_nil (h : f.Witnessed productions) {sentence : List Nat}
    (hnull : (f.ofSentence sentence).2 = true) : Yields productions sentence [] := by
  induction sentence with
  | nil => exact .refl
  | cons s rest ih =>
    obtain ⟨hs, hrest⟩ := (f.vanishes_ofSentence_cons s rest).1 hnull
    exact (h.vanishes s hs).append (ih hrest)

/-- By induction on the row: a terminal comes from the first symbol, or from behind symbols that are
derived away. -/
theorem Witnessed.exists_yields_cons (h : f.Witnessed productions) {sentence : List Nat} {t : Nat}
    (ht : t ∈ (f.ofSentence sentence).1) : ∃ rest, Yields productions sentence (t :: rest) := by
  induction sentence with
  | nil => exact absurd ht (SortedSet.not_mem_empty t)
  | cons s rest ih =>
    rcases (f.mem_ofSentence_cons s rest t).1 ht with hs | ⟨hs, hrest⟩
    · -- the rest of the row stays behind what the first symbol derives
      obtain ⟨w, hw⟩ := h.begins s t hs
      exact ⟨w ++ rest, hw.append .refl⟩
    · -- the first symbol is derived away
      obtain ⟨w, hw⟩ := ih hrest
      exact ⟨w, (h.vanishes s hs).append hw⟩

/-- What a production adds to the sets of its left-hand side is derived by that production first. -/
theorem Witnessed.absorb (h : f.Witnessed productions) {p : Production} (hp : p ∈ productions) :
    (f.absorb p).Witnessed productions where
  begins s t ht := by
    rcases (f.mem_of_absorb p s t).1 ht with ht | ⟨rfl, -, ht⟩
    · exact h.begins s t ht
    · obtain ⟨rest, hrest⟩ := h.exists_yields_cons ht
      exact ⟨rest, .head (.production hp) hrest⟩
  vanishes s hs := by
    rcases (f.isNullable_absorb p s).1 hs with hs | ⟨rfl, -, hs⟩
    · exact h.vanishes s hs
    · exact .head (.production hp) (h.yields_nil hs)

/-- Whatever the order of the productions in a pass, each adds only what is derived. -/
theorem Witnessed.pass {l : List Production} (hl : ∀ p ∈ l, p ∈ productions)
    (h : f.Witnessed productions) : (f.pass l).Witnessed productions := by
  induction l generalizing f with
  | nil => exact h
  | cons p l ih =>
    exact ih (fun q hq => hl q (List.mem_cons_of_mem p hq)) (h.absorb (hl p List.mem_cons_self))

/-- A terminal begins with itself, and nothing else is said at the beginning. -/
theorem witnessed_initial (productions : List Production) (nonterminals symbols : Nat) :
    (initial nonterminals symbols).Witnessed productions where
  begins s t ht := by
    obtain ⟨rfl, -⟩ := (mem_of_initial _ _ s t).1 ht
    exact ⟨[], .refl⟩
  vanishes s hs := by
    change (List.replicate symbols false).getD s false = true at hs
    rw [List.getD_eq_getElem?_getD, List.getElem?_replicate] at hs
    split at hs <;> exact nomatch hs

theorem witnessed_settled (productions : List Production) (nonterminals symbols : Nat) :
    (settled productions nonterminals symbols).1.Witnessed productions :=
  settle_induction (Witnessed productions) (fun _ h => h.pass fun _ hp => hp) _ _
    (witnessed_initial productions nonterminals symbols)

/-! ## What is derived, the sets say -/

/-- By the sets, the first row can begin with all that the second can begin with, and vanishes if the
second does. -/
structure Subsumes (f : FirstSets) (a b : List Nat) : Prop where
  begins : ∀ t ∈ (f.ofSentence b).1, t ∈ (f.ofSentence a).1
  vanishes : (f.ofSentence b).2 = true → (f.ofSentence a).2 = true

/-- The row before a step of a derivation subsumes the row behind it. -/
theorem subsumes_of_rewrites (nonterminals : Nat) {a b : List Nat} (h : Rewrites productions a b)
    (ha : ∀ s ∈ a, s < symbols) :
    (settled productions nonterminals symbols).1.Subsumes a b := by
  cases h with
  | @apply p hp before after =>
    have hlhs : p.lhs < symbols := ha p.lhs (List.mem_append_right _ List.mem_cons_self)
    -- the left-hand side begins and vanishes as the right-hand side does
    have hbegins : ∀ t ∈ ((settled productions nonterminals symbols).1.ofSentence p.rhs).1,
        t ∈ (settled productions nonterminals symbols).1.of p.lhs := fun _ ht =>
      mem_of_settled hp hlhs ht
    have hvanishes : ((settled productions nonterminals symbols).1.ofSentence p.rhs).2 = true →
        (settled productions nonterminals symbols).1.isNullable p.lhs = true :=
      isNullable_settled hp hlhs
    -- what stands before and behind the left-hand side is the same in both rows
    constructor
    · intro t ht
      simp only [List.append_assoc, mem_ofSentence_append, mem_ofSentence_cons] at ht ⊢
      exact ht.imp_right (And.imp_right (Or.imp (hbegins t) (And.imp_left hvanishes)))
    · intro hnull
      simp only [List.append_assoc, vanishes_ofSentence_append, vanishes_ofSentence_cons] at hnull ⊢
      exact hnull.imp_right (And.imp_left hvanishes)

/-- A row subsumes all that is derived from it. -/
theorem subsumes_of_yields (hrange : InRange nonterminals symbols productions) {a b : List Nat}
    (h : Yields productions a b) (ha : ∀ s ∈ a, s < symbols) :
    (settled productions nonterminals symbols).1.Subsumes a b := by
  induction h with
  | refl => exact ⟨fun _ ht => ht, id⟩
  -- the last step comes after what the induction knows of the steps before
  | tail hab hstep ih =>
    have hlast := subsumes_of_rewrites nonterminals hstep (Yields.inRange hrange hab ha)
    exact ⟨fun t ht => ih.begins t (hlast.begins t ht), fun h => ih.vanishes (hlast.vanishes h)⟩

/-- For rows: derivations witness what the sets say, and the sets subsume what is derived. -/
theorem mem_ofSentence_settled_iff (hrange : InRange nonterminals symbols productions)
    {sentence : List Nat} (hsentence : ∀ s ∈ sentence, s < symbols) (t : Nat) :
    t ∈ ((settled productions nonterminals symbols).1.ofSentence sentence).1 ↔
      IsTerminalId nonterminals symbols t ∧ ∃ rest, Yields productions sentence (t :: rest) := by
  constructor
  · intro ht
    exact ⟨(within_settled _ _ _).terminal_of_mem_ofSentence ht,
      (witnessed_settled _ _ _).exists_yields_cons ht⟩
  · -- the row at the end begins with the terminal itself
    rintro ⟨⟨hge, hlt⟩, rest, hyields⟩
    exact (subsumes_of_yields hrange hyields hsentence).begins t
      ((mem_ofSentence_cons _ t rest t).2 (.inl (mem_of_settled_of_terminal hge hlt)))

/-- For rows that vanish, in the same two directions. -/
theorem vanishes_ofSentence_settled_iff (hrange : InRange nonterminals symbols productions)
    {sentence : List Nat} (hsentence : ∀ s ∈ sentence, s < symbols) :
    ((settled productions nonterminals symbols).1.ofSentence sentence).2 = true ↔
      Yields productions sentence [] :=
  ⟨(witnessed_settled _ _ _).yields_nil, fun h => (subsumes_of_yields hrange h hsentence).vanishes rfl⟩

/-- FIRST sets and flags are exact, for rows of symbols and for single symbols: a terminal is in a set
exactly if a row that begins with it is derived, and a flag is set exactly if the empty row is. -/
theorem ofSentence_settled_exact (hrange : InRange nonterminals symbols productions) :
    (∀ sentence : List Nat, (∀ s ∈ sentence, s < symbols) →
      (∀ t, t ∈ ((settled productions nonterminals symbols).1.ofSentence sentence).1 ↔
        IsTerminalId nonterminals symbols t ∧ ∃ rest, Yields productions sentence (t :: rest)) ∧
      (((settled productions nonterminals symbols).1.ofSentence sentence).2 = true ↔
        Yields productions sentence [])) ∧
    ∀ s < symbols,
      (∀ t, t ∈ (settled productions nonterminals symbols).1.of s ↔
        IsTerminalId nonterminals symbols t ∧ ∃ rest, Yields productions [s] (t :: rest)) ∧
      ((settled productions nonterminals symbols).1.isNullable s = true ↔
        Yields productions [s] []) := by
  refine ⟨fun sentence hsentence => ⟨mem_ofSentence_settled_iff hrange hsentence,
    vanishes_ofSentence_settled_iff hrange hsentence⟩, fun s hs => ⟨fun t => ?_, ?_⟩⟩
  -- a single symbol is a row with nothing behind it
  · rw [← mem_ofSentence_settled_iff hrange (List.forall_mem_singleton.2 hs), mem_ofSentence_cons]
    exact (or_iff_left fun h => SortedSet.not_mem_empty t h.2).symm
  · rw [← vanishes_ofSentence_settled_iff hrange (List.forall_mem_singleton.2 hs),
      vanishes_ofSentence_cons]
    exact (and_iff_left rfl).symm

/-- Lists that are recursive on the left behind a prefix that can vanish: `0` derives `1`, `1` derives
`2 1 4` and `5`, and `2` derives nothing or `2 6`. Nothing derives `3`, which derives no row without
itself, and `7` ends the input. -/
def hiddenRecursion : List Production :=
  [⟨0, [1], false⟩, ⟨1, [2, 1, 4], false⟩, ⟨1, [5], false⟩, ⟨2, [], false⟩, ⟨2, [2, 6], false⟩,
    ⟨3, [3, 1, 5], false⟩]

/-- Behind the prefix, a list can begin with what the prefix ends with, but not with what ends a list;
the prefix can vanish, and what derives only rows with itself cannot. -/
theorem ofSentence_hiddenRecursion : InRange 4 8 hiddenRecursion ∧
    (∃ rest, Yields hiddenRecursion [2, 1] (6 :: rest)) ∧
    (¬∃ rest, Yields hiddenRecursion [2, 1] (4 :: rest)) ∧
    Yields hiddenRecursion [2] [] ∧ ¬Yields hiddenRecursion [2, 3] [] := by
  have hrange : InRange 4 8 hiddenRecursion := ⟨by decide, by decide⟩
  obtain ⟨hrows, hsingle⟩ := ofSentence_settled_exact hrange
  obtain ⟨hlist, -⟩ := hrows [2, 1] (by decide)
  refine ⟨hrange, ?_, fun h => ?_, ?_, fun h => ?_⟩
  · exact ((hlist 6).1 (by decide +kernel)).2
  · exact absurd ((hlist 4).2 ⟨by decide, h⟩) (by decide +kernel)
  · exact (hsingle 2 (by decide)).2.1 (by decide +kernel)
  · exact absurd ((hrows [2, 3] (by decide)).2.2 h) (by decide +kernel)

end FirstSets

end GuardedGrammar
