/-
  Parses that have not failed.

  A trace says what a parse has done so far that goes on or has succeeded: which terminals it has
  shifted, which rules it has reduced, and which terminal is to be dealt with.  A parse that goes on has
  a trace (`HasTrace`), and one that has succeeded has a trace that ends where a cell accepts
  (`exists_trace_of_ok`).  What holds of successful parses is proved by induction over traces.
-/
import GuardedGrammar.Proofs.Derivation
import GuardedGrammar.Proofs.Safety

namespace GuardedGrammar

/-- The first answers of a source are the terminals. -/
def Source.Gives (source : Source) (ts : List Terminal) : Prop :=
  ∀ i t, ts[i]? = some t → (source i).item = some (.ok t)

/-- A list as a source gives its terminals. -/
theorem Source.gives_ofList (ts : List Terminal) : (ofList (ts.map .ok)).Gives ts := by
  intro i t hi
  show (ts.map Except.ok)[i]? = _
  rw [List.getElem?_map, hi]
  rfl

/-- A source that has come to an end has given no more. -/
theorem Source.Gives.length_le {source : Source} {ts : List Terminal} (h : source.Gives ts) {m : Nat}
    (hm : (source m).item = none) : ts.length ≤ m := by
  refine Nat.le_of_not_lt fun hlt => ?_
  have hitem := h m ts[m] (List.getElem?_eq_getElem hlt)
  exact nomatch hm.symm.trans hitem

/-- A source gives the same terminals each time it is looked at. -/
theorem Source.Gives.eq_of_length {source : Source} {ts ts' : List Terminal} (h : source.Gives ts)
    (h' : source.Gives ts') (hlength : ts.length = ts'.length) : ts = ts' := by
  refine List.ext_getElem hlength fun i hi hi' => ?_
  have hitem := h i ts[i] (List.getElem?_eq_getElem hi)
  have hitem' := h' i ts'[i] (List.getElem?_eq_getElem hi')
  exact Except.ok.inj (Option.some.inj (hitem.symm.trans hitem'))

/-- A source that gives terminals, and then another one, gives them all. -/
theorem Source.Gives.concat {source : Source} {ts : List Terminal} {t : Terminal}
    (h : source.Gives ts) (ht : (source ts.length).item = some (.ok t)) :
    source.Gives (ts ++ [t]) := by
  intro i t' hi
  rcases Nat.lt_or_ge i ts.length with hlt | hge
  · rw [List.getElem?_append_left hlt] at hi
    exact h i t' hi
  · rw [List.getElem?_append_right hge, List.getElem?_singleton] at hi
    split at hi
    · rename_i heq
      obtain rfl := Option.some.inj hi
      obtain rfl : i = ts.length := by omega
      exact ht
    · exact nomatch hi

namespace Grammar

/-- What a parse has shifted and reduced, where it is, and the terminal that it has to deal with. -/
inductive Trace (g : Grammar) (source : Source) (output : Sink) :
    List Terminal → List Rule → Session → Terminal → Prop
  | start {t : Terminal} (hreply : (source 0).item = some (.ok t)) :
    Trace g source output [] [] (Session.initial output).answered t
  | shift {ts : List Terminal} {rules : List Rule} {s : Session} {t t' : Terminal} {j : Nat}
    (before : Trace g source output ts rules s t) (hcell : .shift j ∈ g.actions s.state t.name)
    (hreply : (source s.stats.terminals).item = some (.ok t')) :
    Trace g source output (ts ++ [t]) rules (s.shifted j t).answered t'
  | reduce {ts : List Terminal} {rules : List Rule} {s s' : Session} {t : Terminal} {r : Rule}
    (before : Trace g source output ts rules s t)
    (heffect : g.Effect source s t [r] s' (.ok (.reading t))) :
    Trace g source output ts (rules ++ [r]) s' t

variable {g : Grammar} {first : Rule} {rest : List Rule} {source : Source} {output : Sink}
  {ts : List Terminal} {rules : List Rule} {s s' : Session} {t : Terminal}

/-! ## What a trace counts -/

/-- The stack of a trace is a path. -/
theorem Trace.isPath (h : g.Trace source output ts rules s t) : g.IsPath s.stack := by
  induction h with
  | start => exact .bottom
  | shift _ hcell _ ih => exact ih.push (.inr hcell)
  | reduce _ heffect ih => exact heffect.isPath ih

/-- A reduction neither shifts nor asks the source. -/
theorem Effect.stats_of_reduced {r : Rule}
    (h : g.Effect source s t [r] s' (.ok (.reading t))) :
    s'.stats.terminals = s.stats.terminals ∧ s'.stats.shifts = s.stats.shifts := by
  cases h with
  | @reduces p j s₀ s₁ scope attributes events _ _ hbefore _ hafter =>
    have hstats := (hbefore.trans hafter).stats
    show s₁.stats.terminals = _ ∧ s₁.stats.shifts = _
    rw [hstats]
    exact ⟨rfl, rfl⟩

/-- The source has been asked for every terminal that has been shifted, and for one more. -/
theorem Trace.stats (h : g.Trace source output ts rules s t) :
    s.stats.shifts = ts.length ∧ s.stats.terminals = ts.length + 1 := by
  induction h with
  | start => exact ⟨rfl, rfl⟩
  | shift _ _ _ ih =>
    rw [List.length_append]
    exact ⟨congrArg (· + 1) ih.1, congrArg (· + 1) ih.2⟩
  | reduce _ heffect ih =>
    obtain ⟨hterminals, hshifts⟩ := heffect.stats_of_reduced
    exact ⟨hshifts.trans ih.1, hterminals.trans ih.2⟩

/-- The source has given what has been shifted, and then the terminal to be dealt with. -/
theorem Trace.gives (h : g.Trace source output ts rules s t) : source.Gives (ts ++ [t]) := by
  induction h with
  | start hreply => exact Source.Gives.concat (fun _ _ hi => nomatch hi) hreply
  | shift before _ hreply ih =>
    refine ih.concat ?_
    rw [List.length_append, List.length_singleton, ← before.stats.2]
    exact hreply
  | reduce _ _ ih => exact ih

/-- A symbol that is shifted is a terminal. -/
theorem isTerminal_of_mem_actions (hg : g.IsBuiltFrom first rest) {state : Nat} {name : String}
    {act : Action} (h : act ∈ g.actions state name) : IsTerminal (first :: rest) name := by
  intro r hr he
  have hid := exists_terminalId?_of_mem_actions h
  have hle := ((g.terminalId?_eq_some_iff _ _).1 hid).2
  have hlt := (hg.idOf_lt_nonterminals_iff name).2
    ⟨r, by rw [hg.rules_eq]; exact List.mem_cons_of_mem _ hr, he⟩
  exact absurd hlt (Nat.not_lt.2 hle)

/-- Only terminals are shifted. -/
theorem Trace.isTerminal (hg : g.IsBuiltFrom first rest)
    (h : g.Trace source output ts rules s t) :
    ∀ name ∈ ts.map (·.name), IsTerminal (first :: rest) name := by
  induction h with
  | start => exact fun _ h => absurd h List.not_mem_nil
  | shift _ hcell _ ih =>
    intro name hname
    rw [List.map_append, List.mem_append] at hname
    rcases hname with hname | hname
    · exact ih name hname
    · obtain rfl := List.mem_singleton.1 hname
      exact isTerminal_of_mem_actions hg hcell
  | reduce _ _ ih => exact ih

/-- No terminal that has been shifted is the end marker. -/
theorem Trace.shifted_ne_endName (hg : g.IsBuiltFrom first rest)
    (h : g.Trace source output ts rules s t) : ∀ x ∈ ts, x.name ≠ endName := by
  induction h with
  | start => exact fun _ h => nomatch h
  | shift before hcell _ ih =>
    refine List.forall_mem_append.2 ⟨ih, List.forall_mem_singleton.2 ?_⟩
    obtain ⟨items, hitems⟩ := before.isPath.exists_items hg
    exact hg.ne_endName_of_shift_mem_actions hitems hcell
  | reduce _ _ ih => exact ih

/-! ## Traces of parses -/

/-- A parse that goes on has a trace; so has one that has succeeded, up to the terminal on which it was
accepted. -/
inductive HasTrace (g : Grammar) (source : Source) (output : Sink) (c : Configuration) : Prop
  | reading {ts : List Terminal} {t : Terminal} (hstatus : c.status = .reading t)
    (htrace : g.Trace source output ts (reducedRules c.events) c.session t)
  | accepted {ts : List Terminal} {e : Terminal}
    (hstatus : c.status = .ended (.ok c.session.stats))
    (htrace : g.Trace source output ts (reducedRules c.events) c.session e)
    (hcell : .accept ∈ g.actions c.session.state e.name)
  | failed {error : ParseError} (hstatus : c.status = .ended (.error error))

/-- A parse that has just begun has a trace without steps, unless it has failed. -/
theorem hasTrace_initial (g : Grammar) (source : Source) (output : Sink) :
    g.HasTrace source output (.initial source output) := by
  obtain ⟨hrules, ⟨-, -, hstatus⟩ | ⟨item, hitem, hsession, hstatus⟩⟩ :=
    Configuration.initial_cases source output
  · exact .failed hstatus
  · cases item with
    | error e => exact .failed hstatus
    | ok t =>
      have htrace : g.Trace source output []
          (reducedRules (Configuration.initial source output).events)
          (Configuration.initial source output).session t := by
        rw [hrules, hsession]
        exact .start hitem
      exact .reading hstatus htrace

/-- A step of a parse makes its trace longer, or ends it. -/
theorem HasTrace.next (hg : g.IsBuiltFrom first rest) {c : Configuration}
    (h : g.HasTrace source output c) : g.HasTrace source output (c.next g source) := by
  cases h with
  | accepted hstatus htrace hcell =>
    rw [Configuration.next_of_ended g source c _ hstatus]
    exact .accepted hstatus htrace hcell
  | failed hstatus =>
    rw [Configuration.next_of_ended g source c _ hstatus]
    exact .failed hstatus
  | @reading ts t hstatus htrace =>
    obtain ⟨rules, result, heffect, hstatus', hrules⟩ :=
      Configuration.next_spec source hg htrace.isPath hstatus
    generalize hs : (c.next g source).session = s' at heffect hstatus'
    cases heffect with
    | unknown => exact .failed hstatus'
    | blocked => exact .failed hstatus'
    | exhausts => exact .failed hstatus'
    | refuses => exact .failed hstatus'
    | accepts hcell =>
      rw [List.append_nil] at hrules
      have htrace' : g.Trace source output ts (reducedRules (c.next g source).events)
          (c.next g source).session t := by
        rw [hrules, hs]
        exact htrace
      exact .accepted (by rw [hs]; exact hstatus') htrace' (by rw [hs]; exact hcell)
    -- a shift counts if the source has an answer; if that is an error, the parse has failed
    | @shifts j item hcell hreply =>
      cases item with
      | error e => exact .failed hstatus'
      | ok t' =>
        rw [List.append_nil] at hrules
        have htrace' : g.Trace source output (ts ++ [t]) (reducedRules (c.next g source).events)
            (c.next g source).session t' := by
          rw [hrules, hs]
          exact htrace.shift hcell hreply
        exact .reading hstatus' htrace'
    -- the same terminal is still to be read
    | @reduces p j s₀ s₁ scope attributes events hcell hrule hbefore hguard hafter hact hgoto =>
      have htrace' : g.Trace source output ts (reducedRules (c.next g source).events)
          (c.next g source).session t := by
        rw [hrules, hs]
        exact htrace.reduce (.reduces hcell hrule hbefore hguard hafter hact hgoto)
      exact .reading hstatus' htrace'

/-- A parse has a trace at every step. -/
theorem hasTrace_parse (hg : g.IsBuiltFrom first rest) (source : Source) (output : Sink) (n : Nat) :
    g.HasTrace source output (g.parse source output n) :=
  Configuration.run_induction (fun _ h => h.next hg) n (hasTrace_initial g source output)

/-- What a parse that goes on has done. -/
theorem exists_trace_of_reading (hg : g.IsBuiltFrom first rest) {n : Nat}
    (h : (g.parse source output n).status = .reading t) :
    ∃ ts, g.Trace source output ts (reducedRules (g.parse source output n).events)
      (g.parse source output n).session t := by
  cases hasTrace_parse hg source output n with
  | reading hstatus htrace =>
    obtain rfl := Status.reading.inj (hstatus.symm.trans h)
    exact ⟨_, htrace⟩
  | accepted hstatus => exact nomatch hstatus.symm.trans h
  | failed hstatus => exact nomatch hstatus.symm.trans h

/-- What a parse that has succeeded has done. -/
theorem exists_trace_of_ok (hg : g.IsBuiltFrom first rest) {n : Nat} {stats : Stats}
    (h : (g.parse source output n).result? = some (.ok stats)) :
    ∃ ts e, stats = (g.parse source output n).session.stats ∧
      g.Trace source output ts (reducedRules (g.parse source output n).events)
        (g.parse source output n).session e ∧
      .accept ∈ g.actions (g.parse source output n).session.state e.name := by
  have hended := Configuration.result?_eq_some_iff.1 h
  cases hasTrace_parse hg source output n with
  | reading hstatus => exact nomatch hstatus.symm.trans hended
  | failed hstatus => exact nomatch hstatus.symm.trans hended
  | accepted hstatus htrace hcell =>
    have he := hstatus.symm.trans hended
    injection he with he
    injection he with he
    exact ⟨_, _, he.symm, htrace, hcell⟩

end Grammar

end GuardedGrammar
