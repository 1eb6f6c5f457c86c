/-
  How long a parse can go on.

  If every rule has something on its right-hand side and no nonterminal leads back to itself through
  rules with one symbol, a parse of finite input ends.  Each name has a weight: the number of
  nonterminals, and one more for each nonterminal that leads to it through such rules.  A rule weighs
  more on the right than on the left (`IsOrdered.weight_lt`): if there is one symbol on the right, more
  nonterminals lead to it than to the left-hand side, and two symbols weigh more than any nonterminal.
  So a reduction takes weight off the stack, and only a shift puts weight on it
  (`Trace.reductions_add_weight_le`).

  Every step but the last shifts or reduces (`steps_of_reading`), so there are only so many of them.

  Main statement: `parse_terminates`.
-/
import GuardedGrammar.Proofs.Soundness

namespace GuardedGrammar

/-! ## Rules with one symbol -/

/-- A rule puts one symbol in place of a name. -/
def UnitRule (rules : List Rule) (name symbol : String) : Prop :=
  ∃ r ∈ rules, r.lhs.name = name ∧ r.rhsNames = [symbol]

/-- If names can be ranked so that a rule with one symbol leads down, none leads back to itself. -/
theorem not_transGen_self_of_rank {rules : List Rule} (rank : String → Nat)
    (h : ∀ r ∈ rules, r.rhsNames.length = 1 → ∀ symbol ∈ r.rhsNames, rank symbol < rank r.lhs.name)
    (name : String) : ¬Relation.TransGen (UnitRule rules) name name := by
  have hunit : ∀ a b, UnitRule rules a b → rank b < rank a := by
    rintro _ b ⟨r, hr, rfl, hrhs⟩
    refine h r hr ?_ b ?_
    · rw [hrhs]
      rfl
    · rw [hrhs]
      exact List.mem_cons_self
  have hchain : ∀ a b, Relation.TransGen (UnitRule rules) a b → rank b < rank a := by
    intro a b hab
    induction hab with
    | single hab => exact hunit _ _ hab
    | tail _ hbc ih => exact (hunit _ _ hbc).trans ih
  exact fun hself => Nat.lt_irrefl _ (hchain name name hself)

/-- No rule derives nothing, and no name leads back to itself through rules with one symbol. -/
structure IsOrdered (rules : List Rule) : Prop where
  rhs_ne_nil : ∀ r ∈ rules, r.rhs ≠ []
  acyclic : ∀ name, ¬Relation.TransGen (UnitRule rules) name name

/-- The nonterminals that the rules are for. -/
def lhsNames (rules : List Rule) : Finset String := (rules.map fun r => r.lhs.name).toFinset

variable {rules : List Rule} {r : Rule}

theorem mem_lhsNames (hr : r ∈ rules) : r.lhs.name ∈ lhsNames rules :=
  List.mem_toFinset.2 (List.mem_map_of_mem hr)

open Classical in
/-- The nonterminals that lead to a name through rules with one symbol. -/
noncomputable def leadingTo (rules : List Rule) (name : String) : Finset String :=
  (lhsNames rules).filter fun a => Relation.TransGen (UnitRule rules) a name

open Classical in
/-- A name leads to another if unit rules do, one after the other. -/
theorem mem_leadingTo {a name : String} :
    a ∈ leadingTo rules name ↔ a ∈ lhsNames rules ∧ Relation.TransGen (UnitRule rules) a name :=
  Finset.mem_filter

theorem leadingTo_subset (name : String) : leadingTo rules name ⊆ lhsNames rules :=
  fun _ ha => (mem_leadingTo.1 ha).1

/-! ## Weights -/

/-- What a name weighs. -/
noncomputable def weight (rules : List Rule) (name : String) : Nat :=
  (lhsNames rules).card + (leadingTo rules name).card

/-- What a row of names weighs. -/
noncomputable def rowWeight (rules : List Rule) : List String → Nat
  | [] => 0
  | name :: rest => weight rules name + rowWeight rules rest

/-- A row weighs as much as its parts. -/
theorem rowWeight_append (a b : List String) :
    rowWeight rules (a ++ b) = rowWeight rules a + rowWeight rules b := by
  induction a with
  | nil => exact (Nat.zero_add _).symm
  | cons name a ih =>
    show weight rules name + rowWeight rules (a ++ b) =
      weight rules name + rowWeight rules a + rowWeight rules b
    rw [ih, Nat.add_assoc]

theorem rowWeight_singleton (name : String) : rowWeight rules [name] = weight rules name := rfl

/-- No name weighs more than twice the number of left-hand sides. -/
theorem weight_le (name : String) : weight rules name ≤ 2 * (lhsNames rules).card := by
  have hle : (leadingTo rules name).card ≤ (lhsNames rules).card :=
    Finset.card_le_card (leadingTo_subset name)
  unfold weight
  omega

/-- No nonterminal leads to itself, so there is one that does not lead to it. -/
theorem IsOrdered.card_leadingTo_lt (h : IsOrdered rules) (hr : r ∈ rules) :
    (leadingTo rules r.lhs.name).card < (lhsNames rules).card := by
  refine Finset.card_lt_card ((Finset.ssubset_iff_of_subset (leadingTo_subset _)).2 ?_)
  exact ⟨r.lhs.name, mem_lhsNames hr, fun hmem => h.acyclic _ (mem_leadingTo.1 hmem).2⟩

/-- The symbol of a rule with one symbol is led to by whatever leads to the left-hand side, and by the
left-hand side. -/
theorem IsOrdered.card_leadingTo_lt_of_unit (h : IsOrdered rules) (hr : r ∈ rules) {symbol : String}
    (hrhs : r.rhsNames = [symbol]) :
    (leadingTo rules r.lhs.name).card < (leadingTo rules symbol).card := by
  have hunit : UnitRule rules r.lhs.name symbol := ⟨r, hr, rfl, hrhs⟩
  refine Finset.card_lt_card ((Finset.ssubset_iff_of_subset fun a ha => ?_).2 ?_)
  · obtain ⟨hmem, hchain⟩ := mem_leadingTo.1 ha
    exact mem_leadingTo.2 ⟨hmem, hchain.tail hunit⟩
  · refine ⟨r.lhs.name, mem_leadingTo.2 ⟨mem_lhsNames hr, .single hunit⟩, fun hmem => ?_⟩
    exact h.acyclic _ (mem_leadingTo.1 hmem).2

/-- The right-hand side of a rule weighs more than the left-hand side. -/
theorem IsOrdered.weight_lt (h : IsOrdered rules) (hr : r ∈ rules) :
    weight rules r.lhs.name < rowWeight rules r.rhsNames := by
  have hne : r.rhsNames ≠ [] := fun hnil => h.rhs_ne_nil r hr (List.map_eq_nil_iff.1 hnil)
  have hlhs := h.card_leadingTo_lt hr
  match hrhs : r.rhsNames with
  | [] => exact absurd hrhs hne
  | [symbol] =>
    have hunit := h.card_leadingTo_lt_of_unit hr hrhs
    rw [rowWeight_singleton]
    unfold weight
    omega
  | a :: b :: more =>
    -- each of two symbols weighs as much as there are nonterminals
    show weight rules r.lhs.name < weight rules a + (weight rules b + rowWeight rules more)
    unfold weight
    omega

namespace Grammar

variable {g : Grammar} {first : Rule} {rest : List Rule} {source : Source} {output : Sink}
  {ts : List Terminal} {reduced : List Rule} {s s' : Session} {t t' : Terminal}

/-! ## What steps count -/

/-- A step after which a parse goes on has shifted a terminal or reduced a rule. -/
theorem Effect.steps {rules : List Rule}
    (h : g.Effect source s t rules s' (.ok (.reading t'))) :
    s'.stats.shifts + s'.stats.reductions = s.stats.shifts + s.stats.reductions + 1 := by
  generalize hresult : (Except.ok (Progress.reading t') : Except ParseError Progress) = result at h
  cases h with
  | shifts =>
    show s.stats.shifts + 1 + s.stats.reductions = _
    omega
  | @reduces p j s₀ s₁ scope attributes events _ _ hbefore _ hafter =>
    have hstats := (hbefore.trans hafter).stats
    show s₁.stats.shifts + (s₁.stats.reductions + 1) = _
    rw [hstats]
    rfl
  | _ => exact nomatch hresult

/-- What has been reduced and what the stack weighs come from the terminals that have been shifted. -/
theorem Trace.reductions_add_weight_le (hg : g.IsBuiltFrom first rest)
    (hordered : IsOrdered (first :: rest)) (h : g.Trace source output ts reduced s t) :
    s.stats.reductions + rowWeight (first :: rest) (spelled s.stack) ≤
      2 * (lhsNames (first :: rest)).card * s.stats.shifts := by
  induction h with
  | start => exact Nat.zero_le _
  | @shift ts reduced s t t' j before _ _ ih =>
    have hspelled : spelled (s.shifted j t).answered.stack = spelled s.stack ++ [t.name] :=
      spelled_cons _ before.isPath.ne_nil
    have hle : weight (first :: rest) t.name ≤ 2 * (lhsNames (first :: rest)).card :=
      weight_le t.name
    -- the shift pays for the weight of its terminal
    rw [hspelled, rowWeight_append, rowWeight_singleton]
    show s.stats.reductions + _ ≤ 2 * _ * (s.stats.shifts + 1)
    rw [Nat.mul_succ]
    omega
  | @reduce ts reduced s s' t r _ heffect ih =>
    obtain ⟨hr, before, hspelled, hspelled'⟩ := heffect.spelled_of_reduced hg
    -- the left-hand side weighs less than what it replaces, which pays for the reduction
    have hlt := hordered.weight_lt hr
    have hsteps := heffect.steps
    have hshifts := heffect.stats_of_reduced.2
    rw [hspelled, rowWeight_append] at ih
    rw [hspelled', rowWeight_append, rowWeight_singleton, hshifts]
    omega

/-! ## Parses -/

/-- However a step ends, there are no more reductions than the terminals that have been shifted
allow. -/
theorem Effect.reductions_le (hg : g.IsBuiltFrom first rest) (hordered : IsOrdered (first :: rest))
    (h : g.Trace source output ts reduced s t) {rules : List Rule}
    {result : Except ParseError Progress} (heffect : g.Effect source s t rules s' result) :
    s'.stats.reductions ≤ 2 * (lhsNames (first :: rest)).card * s'.stats.shifts := by
  have hle := h.reductions_add_weight_le hg hordered
  have hshift : 2 * (lhsNames (first :: rest)).card * s.stats.shifts ≤
      2 * (lhsNames (first :: rest)).card * (s.stats.shifts + 1) :=
    Nat.mul_le_mul_left _ (Nat.le_succ _)
  cases heffect with
  | unknown => omega
  | blocked => omega
  | accepts => omega
  | exhausts => exact (Nat.le_add_right _ _).trans (hle.trans hshift)
  | shifts => exact (Nat.le_add_right _ _).trans (hle.trans hshift)
  | refuses _ _ _ _ hstats =>
    -- an action that fails is counted as nothing
    rw [hstats]
    exact (Nat.le_add_right _ _).trans hle
  | reduces hcell hrule hbefore hguard hafter hact hgoto =>
    -- the reduction belongs to the trace already
    have htrace := h.reduce (.reduces hcell hrule hbefore hguard hafter hact hgoto)
    exact (Nat.le_add_right _ _).trans (htrace.reductions_add_weight_le hg hordered)

/-- At every point of a parse, there are no more reductions than the terminals that have been shifted
allow. -/
theorem reductions_parse_le (hg : g.IsBuiltFrom first rest) (hordered : IsOrdered (first :: rest))
    (source : Source) (output : Sink) (n : Nat) :
    (g.parse source output n).session.stats.reductions ≤
      2 * (lhsNames (first :: rest)).card * (g.parse source output n).session.stats.shifts := by
  induction n with
  | zero =>
    rw [(parse_zero g source output).2.1]
    exact Nat.zero_le _
  | succ n ih =>
    rw [parse_succ]
    cases hread : (g.parse source output n).status with
    | ended r =>
      rw [Configuration.next_of_ended g source _ r hread]
      exact ih
    | reading t =>
      -- a parse that still reads has a trace, and makes one more step of it
      obtain ⟨ts, htrace⟩ := exists_trace_of_reading hg hread
      obtain ⟨rules, result, heffect, -⟩ :=
        Configuration.next_spec source hg htrace.isPath hread
      exact heffect.reductions_le hg hordered htrace

/-- As long as a parse goes on, every step shifts a terminal or reduces a rule. -/
theorem steps_of_reading (hg : g.IsBuiltFrom first rest) {n : Nat}
    (h : (g.parse source output n).status = .reading t) :
    (g.parse source output n).session.stats.shifts +
      (g.parse source output n).session.stats.reductions = n := by
  induction n generalizing t with
  | zero => rw [(parse_zero g source output).1, (parse_zero g source output).2.1]
  | succ n ih =>
    rw [parse_succ] at h ⊢
    cases hread : (g.parse source output n).status with
    | ended r =>
      rw [Configuration.next_of_ended g source _ r hread] at h
      exact nomatch hread.symm.trans h
    | reading t' =>
      obtain ⟨ts, htrace⟩ := exists_trace_of_reading hg hread
      obtain ⟨rules, result, heffect, hstatus, -⟩ :=
        Configuration.next_spec source hg htrace.isPath hread
      rw [hstatus] at h
      match result with
      -- only a step that goes on reading is counted, as a shift or a reduction
      | .ok (.reading t'') => rw [heffect.steps, ih hread]
      | .ok .accepted => exact nomatch h
      | .error _ => exact nomatch h

/-- If every rule has something on its right-hand side, and no nonterminal leads to itself through rules
with one symbol, then at every point of a parse there are at most twice as many reductions as there are
nonterminals, for each terminal that has been shifted; and if the source comes to an end, the parse
does. -/
theorem parse_terminates {rules : List Rule} {g : Grammar} (h : (build rules).result = .ok g)
    (hrhs : ∀ r ∈ rules, r.rhs ≠ [])
    (hacyclic : ∀ name, ¬Relation.TransGen (UnitRule rules) name name)
    (source : Source) (output : Sink) :
    (∀ n, (g.parse source output n).session.stats.reductions ≤
        2 * (lhsNames rules).card * (g.parse source output n).session.stats.shifts) ∧
      ∀ m, (source m).item = none → ∀ n, (2 * (lhsNames rules).card + 1) * m ≤ n →
        ∃ r, (g.parse source output n).result? = some r := by
  obtain ⟨first, rest, rfl, hg⟩ := isBuiltFrom_of_build h
  have hle := reductions_parse_le hg ⟨hrhs, hacyclic⟩ source output
  refine ⟨hle, fun m hm n hn => ?_⟩
  cases hread : (g.parse source output n).status with
  | ended r => exact ⟨r, Configuration.result?_eq_some_iff.2 hread⟩
  | reading t =>
    -- the source has given one terminal more than have been shifted, before it has come to an end
    obtain ⟨ts, htrace⟩ := exists_trace_of_reading hg hread
    have hgiven : (ts ++ [t]).length ≤ m := htrace.gives.length_le hm
    rw [List.length_append, List.length_singleton, ← htrace.stats.1] at hgiven
    have hsteps := steps_of_reading hg hread
    have hreductions := hle n
    have hmul := Nat.mul_le_mul_left (2 * (lhsNames (first :: rest)).card + 1) hgiven
    rw [Nat.mul_succ, Nat.succ_mul] at hmul
    omega

/-- Names that are added up. A name is a term, and a term is a sum. -/
def additions : List Rule :=
  [ { lhs := ⟨"sum", none⟩, rhs := [⟨"sum", none⟩, ⟨"+", none⟩, ⟨"term", none⟩] },
    { lhs := ⟨"sum", none⟩, rhs := [⟨"term", none⟩] },
    { lhs := ⟨"term", none⟩, rhs := [⟨"name", none⟩] } ]

/-- How many rules with one symbol a name is away from a terminal. -/
def additionRank (name : String) : Nat :=
  if name = "sum" then 2 else if name = "term" then 1 else 0

/-- Two names that are added up. -/
def twoNames : List Terminal :=
  [{ name := "name" }, { name := "+" }, { name := "name" }, { name := endName }]

/-- With three terminals shifted there are at most twelve reductions, and the parse has ended after
twenty steps. -/
theorem parse_additions_terminates : ∃ g, (build additions).result = .ok g ∧
    (g.parse (.ofList (twoNames.map .ok)) {} 20).session.stats.reductions ≤ 12 ∧
    ∃ r, (g.parse (.ofList (twoNames.map .ok)) {} 20).result? = some r := by
  have hrun : (build additions).result.map (fun g =>
      (g.parse (.ofList (twoNames.map .ok)) {} 20).session.stats.shifts) = .ok 3 := by
    decide +kernel
  obtain ⟨g, hg, hshifts⟩ := exists_of_map_eq_ok hrun
  have hacyclic : ∀ name, ¬Relation.TransGen (UnitRule additions) name name :=
    not_transGen_self_of_rank additionRank (by decide)
  obtain ⟨hle, hends⟩ := parse_terminates hg (by decide) hacyclic (.ofList (twoNames.map .ok)) {}
  have hcard : (lhsNames additions).card = 2 := by decide +kernel
  have htwelve := hle 20
  rw [hshifts, hcard] at htwelve
  exact ⟨g, hg, htwelve, hends 4 rfl 20 (by rw [hcard])⟩

end Grammar

end GuardedGrammar
