/-
  What a parse accepts is a sentence.

  Read backwards, the rules that a parse has reduced are a rightmost derivation of what it has shifted
  from what lies on its stack (`Trace.rightmostDerivation`): a shift puts the same terminal behind
  both, and a reduction is one more step in front.  When a cell accepts, only the symbol that inputs
  are derived from is left on the stack (`parse_sound`).
-/
import GuardedGrammar.Proofs.Trace

namespace GuardedGrammar

/-- The entries of a stack above its bottom, the lowest first. -/
def aboveBottom (stack : List StackEntry) : List StackEntry := stack.dropLast.reverse

/-! What is pushed comes last, and is spelled last. -/

theorem aboveBottom_cons (entry : StackEntry) {stack : List StackEntry} (h : stack ≠ []) :
    aboveBottom (entry :: stack) = aboveBottom stack ++ [entry] := by
  unfold aboveBottom
  rw [List.dropLast_cons_of_ne_nil h, List.reverse_cons]

/-- The entries of a stack are those further down and those on top. -/
theorem aboveBottom_drop {stack : List StackEntry} {n : Nat} (h : n < stack.length) :
    aboveBottom stack = aboveBottom (stack.drop n) ++ (stack.take n).reverse := by
  have hne : stack.drop n ≠ [] := List.ne_nil_of_length_pos (by rw [List.length_drop]; omega)
  unfold aboveBottom
  rw [← List.reverse_append, ← List.dropLast_append_of_ne_nil hne, List.take_append_drop]

/-- The symbols of a stack above its bottom, the lowest first. -/
def spelled (stack : List StackEntry) : List String := (aboveBottom stack).map (·.symbol)

theorem spelled_cons (entry : StackEntry) {stack : List StackEntry} (h : stack ≠ []) :
    spelled (entry :: stack) = spelled stack ++ [entry.symbol] := by
  unfold spelled
  rw [aboveBottom_cons entry h, List.map_append]
  rfl

namespace Grammar

variable {g : Grammar} {first : Rule} {rest : List Rule} {source : Source} {output : Sink}
  {ts : List Terminal} {rules : List Rule} {s s' : Session} {t : Terminal}

/-- A reduction applies one rule backwards to the symbols on the stack, at their end. -/
theorem Effect.spelled_of_reduced (hg : g.IsBuiltFrom first rest) {r : Rule}
    (h : g.Effect source s t [r] s' (.ok (.reading t))) :
    r ∈ first :: rest ∧ ∃ before, spelled s.stack = before ++ r.rhsNames ∧
      spelled s'.stack = before ++ [r.lhs.name] := by
  cases h with
  | @reduces p j s₀ s₁ scope attributes events _ hrule hbefore _ hafter =>
    obtain ⟨q, hq⟩ := hrule.production
    have hstack : s₁.stack = s.stack := (hbefore.trans hafter).stack
    refine ⟨hg.rule_mem_given hq hrule.ne_start, spelled (s.stack.drop (g.rule p).rhs.length),
      ?_, ?_⟩
    · rw [spelled, aboveBottom_drop hrule.length_lt, List.map_append, hrule.symbols]
      rfl
    · show spelled (_ :: s₁.stack.drop _) = _
      rw [hstack, spelled_cons _ hrule.drop_ne_nil]

/-- The rules that have been reduced, read backwards, derive what has been shifted from what is on
the stack. -/
theorem Trace.rightmostDerivation (hg : g.IsBuiltFrom first rest)
    (h : g.Trace source output ts rules s t) :
    RightmostDerivation (first :: rest) rules.reverse (spelled s.stack) (ts.map (·.name)) := by
  induction h with
  | start => exact .nil []
  | @shift ts rules s t _ j before hcell _ ih =>
    -- the terminal stands behind what is on the stack and behind what has been shifted
    rw [List.map_append]
    show RightmostDerivation _ _ (spelled (_ :: s.stack)) _
    rw [spelled_cons _ before.isPath.ne_nil]
    exact ih.append_terminal (isTerminal_of_mem_actions hg hcell)
  | @reduce ts rules s s' t r _ heffect ih =>
    obtain ⟨hr, before, hspelled, hspelled'⟩ := heffect.spelled_of_reduced hg
    rw [hspelled] at ih
    -- read backwards, the rule comes first, and nothing stands behind its left-hand side
    rw [List.reverse_append, List.reverse_singleton, List.singleton_append, hspelled']
    refine .cons hr (fun _ hn => absurd hn List.not_mem_nil) ?_
    rw [List.append_nil]
    exact ih

/-- A parse that succeeds has asked its source for the terminals of a sentence and then for the end
marker.  It has shifted the sentence, and the rules that it has reduced are, read backwards, a
rightmost derivation of it. -/
theorem parse_sound (h : (build (first :: rest)).result = .ok g) {n : Nat} {stats : Stats}
    (hok : (g.parse source output n).result? = some (.ok stats)) :
    ∃ (w : List Terminal) (e : Terminal), source.Gives (w ++ [e]) ∧ e.name = endName ∧
      stats.terminals = w.length + 1 ∧ stats.shifts = w.length ∧
      IsSentence (first :: rest) first.lhs.name (w.map (·.name)) ∧
      RightmostDerivation (first :: rest)
        (reducedRules (g.parse source output n).events).reverse [first.lhs.name]
        (w.map (·.name)) := by
  obtain ⟨first, rest, hrules, hg⟩ := isBuiltFrom_of_build h
  obtain ⟨rfl, rfl⟩ := List.cons.inj hrules
  obtain ⟨w, e, rfl, htrace, hcell⟩ := exists_trace_of_ok hg hok
  obtain ⟨hname, entry, hstack, hsymbol⟩ := htrace.isPath.of_accept_mem_actions hg hcell
  have hderivation := htrace.rightmostDerivation hg
  rw [hstack] at hderivation
  have hspelled : spelled [entry, Session.bottom] = [first.lhs.name] :=
    congrArg (fun name => [name]) hsymbol
  rw [hspelled] at hderivation
  refine ⟨w, e, htrace.gives, hname, htrace.stats.2, htrace.stats.1, ⟨?_, ?_⟩, hderivation⟩
  · exact hderivation.derives
  · exact htrace.isTerminal hg

/-- Two pairs of brackets, one in the other, are a sentence, because they are parsed. -/
theorem parse_nested_sound : ∃ g, (build nested).result = .ok g ∧
    (g.parse (.ofList (twoPairs.map .ok)) {} 8).result? =
      some (.ok { terminals := 5, shifts := 4, reductions := 3, guards := 2 }) ∧
    ∃ w, w.length = 4 ∧ IsSentence nested "S" w := by
  have hrun : (build nested).result.map (fun g =>
      (g.parse (.ofList (twoPairs.map .ok)) {} 8).result?) =
        .ok (some (.ok { terminals := 5, shifts := 4, reductions := 3, guards := 2 })) := by
    decide +kernel
  obtain ⟨g, hg, hok⟩ := exists_of_map_eq_ok hrun
  obtain ⟨w, _, -, -, -, hlength, hsentence, -⟩ := parse_sound hg hok
  have hfour : (w.map Terminal.name).length = 4 := (List.length_map _).trans hlength.symm
  exact ⟨g, hg, hok, w.map Terminal.name, hfour, hsentence⟩

end Grammar

end GuardedGrammar
