/-
  FOLLOW sets are exact.

  Whatever an occurrence adds is witnessed: what begins behind it stands behind it in something that is
  derived from the left-hand side, and what comes after the left-hand side comes after the occurrence once
  the rest has vanished (`Witnessed`).  The other way round, a row is *allowed* if the sets grant each
  of its nonterminals what the rest of the row can begin with and, where the rest can vanish, what may
  come behind the row.  A single symbol is allowed, and a step of a derivation keeps a row allowed
  (`Allows.of_rewrites`), so every row that is derived is.

  Main statement: `mem_follow_settled_iff`, the members of the FOLLOW set of a nonterminal are the terminals
  that stand behind it somewhere in what is derived from a nonterminal, and the end marker if the
  nonterminal ends something that is derived from the start symbol.
-/
import GuardedGrammar.Proofs.Beginnings
import GuardedGrammar.Proofs.Follow

namespace GuardedGrammar

namespace FollowSets

variable {productions : List Production} {nonterminals symbols start endMarker : Nat}
  {first : FirstSets} {f : FollowSets}

/-- The terminal stands behind the symbol in something that some nonterminal derives, or it is the end
marker and the symbol ends something that the start symbol derives. -/
def IsFollowedBy (productions : List Production) (nonterminals symbols start endMarker : Nat)
    (symbol t : Nat) : Prop :=
  (IsTerminalId nonterminals symbols t ∧ ∃ lhs < nonterminals, ∃ before after,
    YieldsStrictly productions [lhs] (before ++ symbol :: t :: after)) ∨
  (t = endMarker ∧ ∃ before, Yields productions [start] (before ++ [symbol]))

/-! ## What the sets say is derived -/

/-- All that the sets say is witnessed by a derivation. -/
def Witnessed (productions : List Production) (nonterminals symbols start endMarker : Nat)
    (f : FollowSets) : Prop :=
  ∀ s, ∀ t ∈ of f s, IsFollowedBy productions nonterminals symbols start endMarker s t

/-- What a production has behind an occurrence stands behind it in what its left-hand side
derives. -/
theorem isFollowedBy_of_begins (hrange : InRange nonterminals symbols productions)
    (hwithin : first.Within nonterminals symbols) (hfirst : first.Witnessed productions)
    {p : Production} (hp : p ∈ productions) {before rest : List Nat} {symbol : Nat}
    (hrhs : p.rhs = before ++ symbol :: rest) {t : Nat} (ht : t ∈ (first.ofSentence rest).1) :
    IsFollowedBy productions nonterminals symbols start endMarker symbol t := by
  obtain ⟨after, hafter⟩ := hfirst.exists_yields_cons ht
  have hstep : Rewrites productions [p.lhs] (before ++ symbol :: rest) := hrhs ▸ .production hp
  have hrest : Yields productions (before ++ symbol :: rest) (before ++ symbol :: t :: after) :=
    Yields.append (.refl (a := before)) (Yields.append (.refl (a := [symbol])) hafter)
  exact .inl ⟨hwithin.terminal_of_mem_ofSentence ht, p.lhs, hrange.lhs p hp, before, after,
    .head' hstep hrest⟩

/-- What comes after the left-hand side comes after an occurrence behind which all can vanish. -/
theorem IsFollowedBy.of_vanishes (hfirst : first.Witnessed productions) {p : Production}
    (hp : p ∈ productions) {before rest : List Nat} {symbol : Nat}
    (hrhs : p.rhs = before ++ symbol :: rest) (hrest : (first.ofSentence rest).2 = true) {t : Nat}
    (h : IsFollowedBy productions nonterminals symbols start endMarker p.lhs t) :
    IsFollowedBy productions nonterminals symbols start endMarker symbol t := by
  have hstep : Rewrites productions [p.lhs] (before ++ symbol :: rest) := hrhs ▸ .production hp
  -- the left-hand side becomes a row that ends with the symbol
  have hends : Yields productions [p.lhs] (before ++ [symbol]) :=
    .head hstep (Yields.append (.refl (a := before))
      (Yields.append (.refl (a := [symbol])) (hfirst.yields_nil hrest)))
  -- a terminal behind the left-hand side, or the end of what the start symbol derives
  rcases h with ⟨ht, lhs, hlhs, u, v, hyields⟩ | ⟨ht, u, hyields⟩
  · refine .inl ⟨ht, lhs, hlhs, u ++ before, v, hyields.trans_left ?_⟩
    have hcontext := hends.context u (t :: v)
    simp only [List.append_assoc, List.cons_append, List.nil_append] at hcontext ⊢
    exact hcontext
  · refine .inr ⟨ht, u ++ before, Relation.ReflTransGen.trans hyields ?_⟩
    have hcontext := hends.context u []
    simp only [List.append_assoc, List.append_nil] at hcontext ⊢
    exact hcontext

/-- What is witnessed may be added. -/
theorem Witnessed.modify_union
    (h : Witnessed productions nonterminals symbols start endMarker f) {s : Nat}
    {added : SortedSet Nat}
    (hadded : ∀ t ∈ added, IsFollowedBy productions nonterminals symbols start endMarker s t) :
    Witnessed productions nonterminals symbols start endMarker (f.modify s (· ∪ added)) := by
  intro s' t ht
  rcases (mem_getD_modify_union f s added s' t).1 ht with ht | ⟨rfl, -, ht⟩
  · exact h s' t ht
  · exact hadded t ht

section

variable (hrange : InRange nonterminals symbols productions)
  (hwithin : first.Within nonterminals symbols) (hfirst : first.Witnessed productions)
include hrange hwithin hfirst

/-- All that an occurrence adds is witnessed: what begins behind it, and what comes after its
left-hand side if it can stand at the end. -/
theorem Witnessed.absorbOccurrence {p : Production} (hp : p ∈ productions)
    {before rest : List Nat} {symbol : Nat} (hrhs : p.rhs = before ++ symbol :: rest)
    (h : Witnessed productions nonterminals symbols start endMarker f) :
    Witnessed productions nonterminals symbols start endMarker
      (absorbOccurrence nonterminals first p.lhs symbol rest f) := by
  have hbegins := h.modify_union (s := symbol) fun t (ht : t ∈ (first.ofSentence rest).1) =>
    isFollowedBy_of_begins hrange hwithin hfirst hp hrhs ht
  unfold FollowSets.absorbOccurrence
  dsimp only
  split
  · split
    · rename_i hcond
      have hrest : (first.ofSentence rest).2 = true := (Bool.and_eq_true_iff.1 hcond).1
      exact hbegins.modify_union fun t ht => .of_vanishes hfirst hp hrhs hrest (hbegins _ t ht)
    · exact hbegins
  · exact h

/-- By induction on what is left of the right-hand side; what is in front is needed to say where an
occurrence stands. -/
theorem Witnessed.absorbAll {p : Production} (hp : p ∈ productions) {before rest : List Nat}
    (hrhs : p.rhs = before ++ rest)
    (h : Witnessed productions nonterminals symbols start endMarker f) :
    Witnessed productions nonterminals symbols start endMarker
      (absorbAll nonterminals first p.lhs rest f) := by
  induction rest generalizing before f with
  | nil => exact h
  | cons s rest ih =>
    have hrest : p.rhs = (before ++ [s]) ++ rest := by
      rw [hrhs, List.append_assoc]
      rfl
    exact ih hrest (h.absorbOccurrence hrange hwithin hfirst hp hrhs)

/-- Whatever the order of the productions, each adds only what is derived. -/
theorem Witnessed.pass {l : List Production} (hl : ∀ p ∈ l, p ∈ productions)
    (h : Witnessed productions nonterminals symbols start endMarker f) :
    Witnessed productions nonterminals symbols start endMarker (pass l nonterminals first f) := by
  induction l generalizing f with
  | nil => exact h
  | cons p l ih =>
    refine ih (fun q hq => hl q (List.mem_cons_of_mem p hq)) ?_
    exact h.absorbAll hrange hwithin hfirst (hl p List.mem_cons_self) (List.nil_append _).symm

/-- To begin with, only the end marker is said to come after the start symbol, which it does behind
nothing. -/
theorem witnessed_settled (start endMarker : Nat) :
    Witnessed productions nonterminals symbols start endMarker
      (settled productions nonterminals start endMarker first).1 := by
  refine settle_induction (Witnessed productions nonterminals symbols start endMarker)
    (fun _ h => h.pass hrange hwithin hfirst fun _ hp => hp) _ _ fun s t ht => ?_
  obtain ⟨⟨rfl, -⟩, rfl⟩ := (mem_of_initial _ _ _ s t).1 ht
  exact .inr ⟨rfl, [], .refl⟩

end

/-! ## What is derived, the sets say -/

/-- The sets grant each nonterminal of a row what the rest of the row can begin with and, if the rest
can vanish, what may come behind the row. -/
def Allows (nonterminals : Nat) (first : FirstSets) (behind : Nat → Prop) (f : FollowSets) :
    List Nat → Prop
  | [] => True
  | s :: rest =>
    (s < nonterminals → (∀ t ∈ (first.ofSentence rest).1, t ∈ of f s) ∧
      ((first.ofSentence rest).2 = true → ∀ t, behind t → t ∈ of f s)) ∧
    Allows nonterminals first behind f rest

variable {behind : Nat → Prop}

/-- What is allowed of a row is allowed of its end. -/
theorem Allows.of_append {before rest : List Nat}
    (h : Allows nonterminals first behind f (before ++ rest)) :
    Allows nonterminals first behind f rest := by
  induction before with
  | nil => exact h
  | cons s before ih => exact ih h.2

section

variable (hrange : InRange nonterminals symbols productions)
  (hfirst : first = (FirstSets.settled productions nonterminals symbols).1)
include hrange hfirst

/-- What may come behind a nonterminal may come behind its right-hand side. -/
theorem Allows.of_production {p : Production} (hp : p ∈ productions) {before rest after : List Nat}
    (hrhs : p.rhs = before ++ rest)
    (h : Allows nonterminals first behind
      (settled productions nonterminals start endMarker first).1 (p.lhs :: after)) :
    Allows nonterminals first behind (settled productions nonterminals start endMarker first).1
      (rest ++ after) := by
  have hwithin : first.Within nonterminals symbols := hfirst ▸ FirstSets.within_settled _ _ _
  induction rest generalizing before with
  | nil => exact h.2
  | cons s rest ih =>
    have hrest : p.rhs = (before ++ [s]) ++ rest := by
      rw [hrhs, List.append_assoc]
      rfl
    refine ⟨fun hs => ?_, ih hrest⟩
    obtain ⟨hbegins, hends⟩ := h.1 (hrange.lhs p hp)
    constructor
    · -- what the rest of the right-hand side begins with, or, if that vanishes, what comes after
      -- the left-hand side
      intro t ht
      rcases (first.mem_ofSentence_append rest after t).1 ht with ht | ⟨hnull, ht⟩
      · exact mem_of_settled_of_begins hwithin hp hrhs hs ht
      · exact mem_of_settled_of_vanishes hwithin hp hrhs hs hnull (hbegins t ht)
    · -- all that is behind vanishes, so what comes behind the row comes after the left-hand side
      intro hnull t ht
      obtain ⟨hnull, hafter⟩ := (first.vanishes_ofSentence_append rest after).1 hnull
      exact mem_of_settled_of_vanishes hwithin hp hrhs hs hnull (hends hafter t ht)

/-- A step of a derivation keeps a row allowed. -/
theorem Allows.of_rewrites {a b : List Nat} (hstep : Rewrites productions a b)
    (ha : ∀ s ∈ a.tail, s < symbols)
    (h : Allows nonterminals first behind
      (settled productions nonterminals start endMarker first).1 a) :
    Allows nonterminals first behind
      (settled productions nonterminals start endMarker first).1 b := by
  cases hstep with
  | @apply p hp before after =>
    induction before with
    | nil => exact h.of_production hrange hfirst hp (List.nil_append _).symm
    | cons s before ih =>
      -- to the symbols before it, the right-hand side offers no more than the left-hand side does
      have hsub : first.Subsumes (before ++ p.lhs :: after) (before ++ p.rhs ++ after) :=
        hfirst ▸ FirstSets.subsumes_of_rewrites nonterminals (.apply hp before after) ha
      refine ⟨fun hs => ?_, ih (fun s hs => ha s (List.mem_of_mem_tail hs)) h.2⟩
      obtain ⟨hbegins, hends⟩ := h.1 hs
      exact ⟨fun t ht => hbegins t (hsub.begins t ht), fun hnull => hends (hsub.vanishes hnull)⟩

/-- By induction on the derivation, from its first step on: what the row before a step is allowed,
the row behind it is. -/
theorem Allows.of_yields {a b : List Nat} (hyields : Yields productions a b)
    (ha : ∀ s ∈ a.tail, s < symbols)
    (h : Allows nonterminals first behind
      (settled productions nonterminals start endMarker first).1 a) :
    Allows nonterminals first behind
      (settled productions nonterminals start endMarker first).1 b := by
  induction hyields using Relation.ReflTransGen.head_induction_on with
  | refl => exact h
  | head hstep _ ih =>
    exact ih (hstep.tail_inRange hrange ha) (h.of_rewrites hrange hfirst hstep ha)

/-- What is derived from a single symbol is allowed what may come behind that symbol. -/
theorem granted_of_yields {s : Nat} (behind : Nat → Prop)
    (h : ∀ t, behind t → t ∈ of (settled productions nonterminals start endMarker first).1 s)
    {before rest : List Nat} {symbol : Nat}
    (hyields : Yields productions [s] (before ++ symbol :: rest)) (hsymbol : symbol < nonterminals) :
    (∀ t ∈ (first.ofSentence rest).1,
      t ∈ of (settled productions nonterminals start endMarker first).1 symbol) ∧
    ((first.ofSentence rest).2 = true → ∀ t, behind t →
      t ∈ of (settled productions nonterminals start endMarker first).1 symbol) := by
  have hsingle : Allows nonterminals first behind
      (settled productions nonterminals start endMarker first).1 [s] :=
    ⟨fun _ => ⟨fun t ht => absurd ht (SortedSet.not_mem_empty t), fun _ => h⟩, trivial⟩
  have hall := hsingle.of_yields hrange hfirst hyields fun _ hs => absurd hs List.not_mem_nil
  exact hall.of_append.1 hsymbol

end

/-- FOLLOW sets are exact: the members of the set of a nonterminal are the terminals that stand behind it
in something that a nonterminal derives in at least one step, whether that nonterminal can be reached
or not, and the end marker if the nonterminal ends something that the start symbol derives. -/
theorem mem_follow_settled_iff (hrange : InRange nonterminals symbols productions)
    (hstart : start < nonterminals) {symbol : Nat} (hsymbol : symbol < nonterminals)
    (endMarker t : Nat) :
    t ∈ of (settled productions nonterminals start endMarker
        (FirstSets.settled productions nonterminals symbols).1).1 symbol ↔
      (IsTerminalId nonterminals symbols t ∧ ∃ lhs < nonterminals, ∃ before after,
        YieldsStrictly productions [lhs] (before ++ symbol :: t :: after)) ∨
      (t = endMarker ∧ ∃ before, Yields productions [start] (before ++ [symbol])) := by
  constructor
  · exact witnessed_settled hrange (FirstSets.within_settled _ _ _)
      (FirstSets.witnessed_settled _ _ _) start endMarker symbol t
  · rintro (⟨⟨hge, hlt⟩, lhs, -, before, after, hyields⟩ | ⟨rfl, before, hyields⟩)
    -- nothing needs to come behind the nonterminal that the derivation starts from
    · refine (granted_of_yields hrange rfl (fun _ => False) (fun _ h => h.elim)
        hyields.to_reflTransGen hsymbol).1 t ?_
      exact (FirstSets.mem_ofSentence_cons _ t after t).2
        (.inl (FirstSets.mem_of_settled_of_terminal hge hlt))
    -- the end marker comes behind the start symbol
    · refine (granted_of_yields hrange rfl (fun t' => t' = t) ?_ hyields hsymbol).2 rfl t rfl
      rintro _ rfl
      exact endMarker_mem_settled productions hstart

/-- A prefix comes before what a list begins with, and not at the end; and a list comes before `5`, if
only in what is derived from a nonterminal that cannot be reached. -/
theorem mem_follow_hiddenRecursion : InRange 4 8 FirstSets.hiddenRecursion ∧ 0 < 4 ∧ 2 < 4 ∧
    (∃ lhs < 4, ∃ before after,
      YieldsStrictly FirstSets.hiddenRecursion [lhs] (before ++ 2 :: 5 :: after)) ∧
    (¬∃ before, Yields FirstSets.hiddenRecursion [0] (before ++ [2])) ∧
    ∃ lhs < 4, ∃ before after,
      YieldsStrictly FirstSets.hiddenRecursion [lhs] (before ++ 1 :: 5 :: after) := by
  have hrange : InRange 4 8 FirstSets.hiddenRecursion := ⟨by decide, by decide⟩
  have hrow := mem_follow_settled_iff hrange (show 0 < 4 by decide) (show 2 < 4 by decide) 7
  have hlist := mem_follow_settled_iff hrange (show 0 < 4 by decide) (show 1 < 4 by decide) 7
  refine ⟨hrange, by decide, by decide, ?_, fun h => ?_, ?_⟩
  · rcases (hrow 5).1 (by decide +kernel) with h | h
    · exact h.2
    · exact absurd h.1 (by decide)
  · exact absurd ((hrow 7).2 (.inr ⟨rfl, h⟩)) (by decide +kernel)
  · rcases (hlist 5).1 (by decide +kernel) with h | h
    · exact h.2
    · exact absurd h.1 (by decide)

end FollowSets

end GuardedGrammar
