/-
  What has been shifted begins a sentence.

  Whatever lies on a stack that is a path, each item of the state on top has a use for it: what is
  spelled there goes on, in a sentential form, with what the item still waits for (`IsAwaited`).
  Reading a symbol keeps this, and so does opening a production, because a rule may be applied wherever
  its left-hand side is waited for (`IsPath.isAwaited_of_mem`).  No state is empty, so every path goes
  on to a sentential form, and to a sentence if every nonterminal derives one
  (`IsPath.exists_sentence`).

  What has been shifted is derived from what lies on the stack, so it begins that sentence.  The
  argument is made where a terminal is shifted, because after that the parse may end in any way.

  Main statement: `parse_shifts_viable_prefix`.
-/
import GuardedGrammar.Proofs.Asking
import GuardedGrammar.Proofs.Reachability
import GuardedGrammar.Proofs.Soundness

namespace GuardedGrammar

/-! ## Rules that lead to sentences -/

/-- Every nonterminal derives a sentence. -/
def IsProductive (rules : List Rule) : Prop :=
  ∀ r ∈ rules, ∃ w, IsSentence rules r.lhs.name w

/-- If every nonterminal derives a sentence, so does every row of names. -/
theorem IsProductive.exists_derives {rules : List Rule} (h : IsProductive rules)
    (names : List String) : ∃ w, Derives rules names w ∧ ∀ name ∈ w, IsTerminal rules name := by
  induction names with
  | nil => exact ⟨[], .refl, fun _ hn => nomatch hn⟩
  | cons name names ih =>
    obtain ⟨w, hw, hterminals⟩ := ih
    by_cases hname : IsTerminal rules name
    · have hself : Derives rules [name] [name] := .refl
      exact ⟨name :: w, hself.append hw, List.forall_mem_cons.2 ⟨hname, hterminals⟩⟩
    · obtain ⟨r, hr, hlhs⟩ : ∃ r ∈ rules, r.lhs.name = name := by
        unfold IsTerminal at hname
        push Not at hname
        exact hname
      obtain ⟨v, hv⟩ := h r hr
      rw [hlhs] at hv
      exact ⟨v ++ w, hv.derives.append hw, List.forall_mem_append.2 ⟨hv.terminals, hterminals⟩⟩

namespace Grammar

/-- What an item still waits for. -/
def remaining (g : Grammar) (x : Item) : List String :=
  (g.rule x.production).rhsNames.drop x.dot

/-- What has been read goes on with what the item waits for, in a sentential form that is derived from
the root. -/
def IsAwaited (g : Grammar) (rules : List Rule) (root : String) (read : List String) (x : Item) :
    Prop :=
  ∃ after, Derives rules [root] (read ++ g.remaining x ++ after)

variable {g : Grammar} {first : Rule} {rest : List Rule} {stack : List StackEntry}
  {read : List String}

section

variable (hg : g.IsBuiltFrom first rest)
include hg

/-! ## Items and what they wait for -/

/-- An item that waits for a symbol waits for that first, and then for what it waits for behind it. -/
theorem IsBuiltFrom.remaining_of_observed {x : Item} {id : Nat}
    (h : x.observed? g.automaton.productions = some id) :
    ∃ name, g.remaining x = name :: g.remaining x.advance ∧ g.names.idOf name = id ∧
      name ∈ g.names.names := by
  obtain ⟨hrule, s, hs, hid⟩ := hg.observed?_eq_some h
  refine ⟨s.name, ?_, hid, hg.mem_names hrule (List.mem_cons_of_mem _ (List.mem_of_getElem? hs))⟩
  have hget : (g.rule x.production).rhsNames[x.dot]? = some s.name := by
    unfold Rule.rhsNames
    rw [List.getElem?_map, hs]
    rfl
  obtain ⟨hlt, hname⟩ := List.getElem?_eq_some_iff.1 hget
  unfold remaining
  rw [List.drop_eq_getElem_cons hlt, hname]
  rfl

/-- Reading the symbol that an item waits for. -/
theorem IsAwaited.advance {x : Item} (h : g.IsAwaited (first :: rest) first.lhs.name read x)
    {name : String} (ho : x.observed? g.automaton.productions = some (g.names.idOf name)) :
    g.IsAwaited (first :: rest) first.lhs.name (read ++ [name]) x.advance := by
  obtain ⟨after, hderives⟩ := h
  obtain ⟨name', hremaining, hid, hmem⟩ := hg.remaining_of_observed ho
  obtain rfl : name' = name := SymbolTable.idOf_inj hmem hid
  refine ⟨after, ?_⟩
  rw [hremaining] at hderives
  rwa [List.append_assoc read]

/-- Where a nonterminal is waited for, its rules are waited for from their beginning. -/
theorem IsAwaited.opens {i x : Item} {p : Production}
    (h : g.IsAwaited (first :: rest) first.lhs.name read i) (hdot : x.dot = 0)
    (hp : g.automaton.productions[x.production]? = some p)
    (ho : i.observed? g.automaton.productions = some p.lhs) :
    g.IsAwaited (first :: rest) first.lhs.name read x := by
  obtain ⟨after, hderives⟩ := h
  obtain ⟨name, hremaining, hid, hmem⟩ := hg.remaining_of_observed ho
  -- the start production is not opened, because nothing waits for its left-hand side
  have hne : x.production ≠ startProduction := by
    intro hstart
    rw [hstart] at hp
    exact hg.observed?_ne_start hp ho
  have hrule := hg.rule_mem_given hp hne
  have hlhs : (g.rule x.production).lhs.name = name := by
    have hnum : g.names.idOf (g.rule x.production).lhs.name = g.names.idOf name := by
      rw [hid, (hg.rules_of_production hp).2]
      rfl
    exact SymbolTable.idOf_inj (hg.mem_names (hg.rule_mem hp) List.mem_cons_self) hnum
  have hall : g.remaining x = (g.rule x.production).rhsNames := by
    unfold remaining
    rw [hdot, List.drop_zero]
  refine ⟨g.remaining i.advance ++ after, hderives.tail ?_⟩
  have happly := Produces.apply hrule read (g.remaining i.advance ++ after)
  rw [hremaining, hall, ← hlhs]
  simpa only [List.append_assoc, List.cons_append] using happly

/-- What is spelled on a path goes on with what any item on top of it waits for. -/
theorem IsPath.isAwaited_of_mem (h : g.IsPath stack) {items : ItemSet}
    (hitems : g.states[StackEntry.topState stack]? = some items) {x : Item} (hx : x ∈ items) :
    g.IsAwaited (first :: rest) first.lhs.name (spelled stack) x := by
  induction h generalizing items x with
  | bottom =>
    obtain rfl := Option.some.inj (hitems.symm.trans hg.states_zero)
    refine closure_induction ?_ (fun i y p hi hdot hp _ ho => hi.opens hg hdot hp ho) hx
    intro y hy
    obtain rfl := (SortedSet.mem_singleton _ y).1 hy
    -- at the bottom nothing has been spelled, and the start rule is still to be read
    refine ⟨[], ?_⟩
    unfold remaining
    rw [hg.rule_start]
    exact .refl
  | @push entry lower path leads ih =>
    obtain ⟨below, hbelow⟩ := path.exists_items hg
    have htop := Option.some.inj (hitems.symm.trans (leads.states hg hbelow))
    rw [htop] at hx
    refine closure_induction ?_ (fun i y p hi hdot hp _ ho => hi.opens hg hdot hp ho) hx
    intro y hy
    -- an item that was moved had been awaited in the state below
    obtain ⟨i, hi, ho, rfl⟩ := (mem_moved _ y).1 hy
    rw [spelled_cons entry path.ne_nil]
    exact (ih hbelow hi).advance hg ho

/-! ## Paths and sentences -/

/-- There is an item on top of every path. -/
theorem IsPath.exists_item (h : g.IsPath stack) :
    ∃ items x, g.states[StackEntry.topState stack]? = some items ∧ x ∈ items := by
  obtain ⟨items, hitems⟩ := h.exists_items hg
  have hmem : items ∈ g.automaton.states := List.mem_of_getElem? hitems
  rw [hg.states_eq] at hmem
  have hempty := (isLinked_collection _ _ _).nonempty items hmem
  obtain ⟨x, hx⟩ := exists_mem_of_isEmpty_eq_false hempty
  exact ⟨items, x, hitems, hx⟩

/-- If every nonterminal derives a sentence, what is derived from what a path spells begins one. -/
theorem IsPath.exists_sentence (hproductive : IsProductive (first :: rest)) (h : g.IsPath stack)
    {names : List String} (hderives : Derives (first :: rest) (spelled stack) names)
    (hnames : ∀ name ∈ names, IsTerminal (first :: rest) name) :
    ∃ w, IsSentence (first :: rest) first.lhs.name w ∧ names <+: w := by
  obtain ⟨items, x, hitems, hx⟩ := h.exists_item hg
  obtain ⟨after, hform⟩ := h.isAwaited_of_mem hg hitems hx
  obtain ⟨v, hv, hterminals⟩ := hproductive.exists_derives (g.remaining x ++ after)
  rw [List.append_assoc] at hform
  have hsentence := hform.trans (hderives.append hv)
  exact ⟨names ++ v, ⟨hsentence, List.forall_mem_append.2 ⟨hnames, hterminals⟩⟩,
    List.prefix_append _ _⟩

end

/-! ## What has been shifted -/

variable {source : Source} {output : Sink} {ts : List Terminal} {rules : List Rule} {s : Session}
  {t : Terminal}

/-- A terminal that is shifted goes on with what has been shifted as a sentence does. -/
theorem Trace.exists_sentence_of_shift (hg : g.IsBuiltFrom first rest)
    (hproductive : IsProductive (first :: rest)) (h : g.Trace source output ts rules s t) {j : Nat}
    (hcell : .shift j ∈ g.actions s.state t.name) :
    ∃ w, IsSentence (first :: rest) first.lhs.name w ∧ (ts ++ [t]).map (·.name) <+: w := by
  have hterminal := isTerminal_of_mem_actions hg hcell
  have hpath : g.IsPath (s.shifted j t).stack := h.isPath.push (.inr hcell)
  have hspelled : spelled (s.shifted j t).stack = spelled s.stack ++ [t.name] :=
    spelled_cons _ h.isPath.ne_nil
  have hderives := ((h.rightmostDerivation hg).append_terminal hterminal).derives
  rw [← hspelled] at hderives
  rw [List.map_append]
  refine hpath.exists_sentence hg hproductive hderives (List.forall_mem_append.2 ⟨?_, ?_⟩)
  · exact h.isTerminal hg
  · exact List.forall_mem_singleton.2 hterminal

/-- At every point of a parse, as many terminals as have been shifted begin a sentence. -/
theorem parse_begins_sentence (hg : g.IsBuiltFrom first rest)
    (hproductive : IsProductive (first :: rest)) (n : Nat) (hgives : source.Gives ts)
    (hlength : ts.length = (g.parse source output n).session.stats.shifts) :
    ∃ w, IsSentence (first :: rest) first.lhs.name w ∧ ts.map (·.name) <+: w := by
  induction n generalizing ts with
  | zero =>
    rw [(parse_zero g source output).1] at hlength
    obtain rfl := List.eq_nil_of_length_eq_zero hlength
    exact IsPath.bottom.exists_sentence hg hproductive .refl fun _ hn => nomatch hn
  | succ n ih =>
    rw [parse_succ] at hlength
    cases hread : (g.parse source output n).status with
    | ended r =>
      rw [Configuration.next_of_ended g source _ r hread] at hlength
      exact ih hgives hlength
    | reading t =>
      obtain ⟨ts', htrace⟩ := exists_trace_of_reading hg hread
      rw [Configuration.next_of_reading hread] at hlength
      rcases step_cases g (g.parse source output n).session t with
        ⟨j, hcell, hrun⟩ | ⟨task, hin, -, hrun⟩
      · -- the source has given the terminal that is shifted after the others
        have hshifted : ts.length = (ts' ++ [t]).length := by
          rw [hlength, hrun source, List.length_append, ← htrace.stats.1]
          exact shifts_after_ask source [] _
        obtain rfl := hgives.eq_of_length htrace.gives hshifted
        exact htrace.exists_sentence_of_shift hg hproductive hcell
      · rw [hrun source] at hlength
        exact ih hgives (hlength.trans (hin _).shifts)

/-- If every nonterminal derives a sentence, then at every point of a parse, whatever becomes of it, the
terminals that have been shifted begin a sentence. -/
theorem parse_shifts_viable_prefix (h : (build (first :: rest)).result = .ok g)
    (hproductive : ∀ r ∈ first :: rest, ∃ w, IsSentence (first :: rest) r.lhs.name w)
    (source : Source) (output : Sink) (n : Nat) :
    ∃ (ts : List Terminal) (w : List String), source.Gives ts ∧
      ts.length = (g.parse source output n).session.stats.shifts ∧
      shiftedNames (g.parse source output n).events = ts.map (·.name) ∧
      IsSentence (first :: rest) first.lhs.name w ∧ ts.map (·.name) <+: w := by
  obtain ⟨first, rest, hrules, hg⟩ := isBuiltFrom_of_build h
  obtain ⟨rfl, rfl⟩ := List.cons.inj hrules
  obtain ⟨ts, hgives, hlength, hnames⟩ := (hasAsked_parse g source output n).shifted
  obtain ⟨w, hsentence, hprefix⟩ := parse_begins_sentence hg hproductive n hgives hlength
  exact ⟨ts, w, hgives, hlength, hnames, hsentence, hprefix⟩

/-- Two opening brackets. -/
def unclosed : List Terminal := [{ name := "(" }, { name := "(" }, { name := endName }]

/-- If the input ends after two opening brackets, one rule is reduced before the parse fails; the
brackets begin a sentence all the same. -/
theorem parse_unclosed_shifts_viable_prefix : ∃ g, (build nested).result = .ok g ∧
    (g.parse (.ofList (unclosed.map .ok)) {} 4).result? =
      some (.error (.failed (.noAction 3 endName))) ∧
    ∃ w, IsSentence nested "S" w ∧ ["(", "("] <+: w := by
  have hrun : (build nested).result.map (fun g =>
      ((g.parse (.ofList (unclosed.map .ok)) {} 4).result?,
        shiftedNames (g.parse (.ofList (unclosed.map .ok)) {} 4).events)) =
        .ok (some (.error (.failed (.noAction 3 endName))), ["(", "("]) := by
    decide +kernel
  have hproductive : ∀ r ∈ nested, ∃ w, IsSentence nested r.lhs.name w := by
    -- the only nonterminal derives nothing at all
    have hempty : Produces nested ([] ++ "S" :: []) ([] ++ [] ++ []) :=
      .apply (r := nested[2]) (by decide) [] []
    intro r hr
    have hlhs : r.lhs.name = "S" := by
      revert r
      decide
    rw [hlhs]
    exact ⟨[], .single hempty, fun _ hn => nomatch hn⟩
  obtain ⟨g, hg, hpair⟩ := exists_of_map_eq_ok hrun
  obtain ⟨hresult, hshifted⟩ := Prod.mk.inj hpair
  obtain ⟨ts, w, -, -, hnames, hsentence, hprefix⟩ :=
    parse_shifts_viable_prefix hg hproductive (.ofList (unclosed.map .ok)) {} 4
  rw [← hnames, hshifted] at hprefix
  exact ⟨g, hg, hresult, w, hsentence, hprefix⟩

end Grammar

end GuardedGrammar
