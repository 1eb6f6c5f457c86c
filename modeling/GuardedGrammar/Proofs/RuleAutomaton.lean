/-
  The automaton of a list of rules.

  What is worked out for numbered rules before the tables are filled is their automaton (`automatonOf`).
  If no rule mentions the end marker, the automaton is in good order (`WellFormed`): its states are all
  there are to reach, each once; only terminals follow; and no rule has the last number, which is that
  of the end marker.  So each state leads on with every symbol that it waits for (`leadsOn`), and the
  number of the state that it leads to is the only one (`target?_eq_some_iff`).

  Main statement: `wellFormed_automatonOf`.
-/
import GuardedGrammar.Proofs.Built
import GuardedGrammar.Proofs.Contents
import GuardedGrammar.Proofs.Follow

namespace GuardedGrammar

/-- In a list without duplicates a member has one place only. -/
theorem idxOf?_eq_some_iff_of_nodup {α : Type} [DecidableEq α] {l : List α} (h : l.Nodup) (a : α)
    (i : Nat) : l.idxOf? a = some i ↔ l[i]? = some a := by
  rw [List.idxOf?_eq_some_iff]
  constructor
  · rintro ⟨hlt, he, -⟩
    rw [List.getElem?_eq_getElem hlt, he]
  · intro hi
    obtain ⟨hlt, he⟩ := List.getElem?_eq_some_iff.1 hi
    refine ⟨hlt, he, fun j hj hfirst => ?_⟩
    have hji : j = i := h.getElem_inj_iff.1 (hfirst.trans he.symm)
    omega

namespace Automaton

/-! ## Automata in good order -/

/-- The states are those that the productions lead to, only terminals follow anything, and no right-hand
side has the end marker. -/
structure WellFormed (a : Automaton) : Prop where
  productions_ne : a.productions ≠ []
  states_eq : a.states = collection a.productions a.nonterminals a.names.size
  follow : a.FollowsInRange
  rhs_lt : ∀ p ∈ a.productions, ∀ s ∈ p.rhs, s < a.endMarker

variable {a : Automaton} {items : ItemSet} {s : Nat}

namespace WellFormed

/-- No state waits for the end marker, or for anything that has no name. -/
theorem lt_endMarker_of_awaits (h : a.WellFormed) (hs : a.Awaits items s) : s < a.endMarker := by
  obtain ⟨x, -, ho⟩ := hs
  obtain ⟨p, hp, hget⟩ := (x.observed?_eq_some_iff s).1 ho
  exact h.rhs_lt p (List.mem_of_getElem? hp) s (List.mem_of_getElem? hget)

theorem lt_size_of_awaits (h : a.WellFormed) (hs : a.Awaits items s) : s < a.names.size := by
  have hlt := h.lt_endMarker_of_awaits hs
  unfold endMarker at hlt
  omega

/-- A symbol leads to the only state that has what is behind the symbol. -/
theorem target?_eq_some_iff (h : a.WellFormed) (items : ItemSet) (s j : Nat) :
    a.target? items s = some j ↔
      a.states[j]? = some (successor a.productions a.nonterminals items s) := by
  have hnodup : a.states.Nodup := h.states_eq ▸ nodup_collection h.productions_ne _ _
  exact idxOf?_eq_some_iff_of_nodup hnodup _ _

/-- Each state leads on with what it waits for. -/
theorem leadsOn (h : a.WellFormed) (hitems : items ∈ a.states) : a.LeadsOn items := by
  intro s hs
  have hlt := h.lt_size_of_awaits hs
  obtain ⟨x, hx, ho⟩ := hs
  have hmem : successor a.productions a.nonterminals items s ∈ a.states := by
    rw [h.states_eq] at hitems ⊢
    exact successor_mem_collection h.productions_ne hitems hlt hx ho
  obtain ⟨j, hj⟩ := List.mem_iff_getElem?.1 hmem
  exact ⟨j, (h.target?_eq_some_iff items s j).2 hj⟩

/-- The tables of an automaton in good order can be filled. -/
theorem exists_tables (h : a.WellFormed) : ∃ tables, a.tables.result = .ok tables :=
  Automaton.exists_tables fun _ hitems => h.leadsOn hitems

end WellFormed

end Automaton

namespace Grammar

/-! ## From rules to an automaton -/

/-- The rules with the start rule in front. -/
def augmented : List Rule → List Rule
  | [] => []
  | first :: rest => Rule.start first.lhs.name :: first :: rest

/-- The FIRST sets of numbered rules. -/
def firstOf (rules : List Rule) : FirstSets :=
  (FirstSets.settled (rules.map (Rule.encode (symbolTable rules))) (nonterminalTable rules).size
    (symbolTable rules).size).1

/-- The automaton of rules of which the first is the start rule. -/
def automatonOf (rules : List Rule) : Automaton where
  productions := rules.map (Rule.encode (symbolTable rules))
  names := symbolTable rules
  nonterminals := (nonterminalTable rules).size
  follow := (FollowSets.settled (rules.map (Rule.encode (symbolTable rules)))
    (nonterminalTable rules).size (startSymbol (rules.map (Rule.encode (symbolTable rules))))
    ((symbolTable rules).size - 1) (firstOf rules)).1
  states := collection (rules.map (Rule.encode (symbolTable rules))) (nonterminalTable rules).size
    (symbolTable rules).size

/-- What is assembled depends on whether the tables can be filled and pass. -/
theorem result_assemble (rules : List Rule) :
    (assemble rules).result = (do
      let tables ← (automatonOf rules).tables.result
      (automatonOf rules).validate (tables.map (·.actions))
      pure ⟨rules, firstOf rules, automatonOf rules, tables⟩) := by
  unfold assemble
  simp only [Traced.result_bind]
  rfl

variable {rules : List Rule}

/-- The automaton of rules is in good order if they do not mention the end marker. -/
theorem wellFormed_automatonOf (hne : rules ≠ [])
    (hend : ∀ r ∈ rules, ∀ s ∈ r.symbols, s.name ≠ endName) : (automatonOf rules).WellFormed where
  productions_ne h := hne (List.map_eq_nil_iff.1 h)
  states_eq := rfl
  follow s t ht := by
    have hfirst : (firstOf rules).Within (nonterminalTable rules).size (symbolTable rules).size :=
      FirstSets.within_settled _ _ _
    have hknown := (FollowSets.within_settled hfirst _ _ _).known s t ht
    have hlt : (nonterminalTable rules).size < (symbolTable rules).size :=
      size_nonterminalTable_lt hend
    rcases FollowSets.mem_known.1 hknown with rfl | hrange
    · exact ⟨Nat.le_sub_one_of_lt hlt, Nat.sub_one_lt_of_lt hlt⟩
    · exact hrange
  rhs_lt p hp s hs := by
    obtain ⟨r, hr, rfl⟩ := List.mem_map.1 hp
    obtain ⟨symbol, hsymbol, rfl⟩ := List.mem_map.1 hs
    have hmem : symbol.name ∈ (symbolTable rules).names :=
      mem_symbolTable_of_mem hr (List.mem_cons_of_mem _ hsymbol)
    have hlt := (SymbolTable.idOf_lt_size_iff _ _).2 hmem
    -- the end marker has the last number, and another name another number
    have hlast : (symbolTable rules).idOf endName = (automatonOf rules).endMarker := idOf_endName hend
    have hother : (symbolTable rules).idOf symbol.name ≠ (automatonOf rules).endMarker := fun he =>
      hend r hr symbol (List.mem_cons_of_mem _ hsymbol)
        (SymbolTable.idOf_inj hmem (he.trans hlast.symm))
    exact Nat.lt_of_le_of_ne (Nat.le_sub_one_of_lt hlt) hother

namespace IsBuiltFrom

variable {g : Grammar} {first : Rule} {rest : List Rule} (hg : g.IsBuiltFrom first rest)
include hg

/-- The automaton of a grammar is the one of its rules. -/
theorem automaton_eq : g.automaton = automatonOf g.rules := by
  obtain ⟨rules, firstSets, ⟨productions, names, nonterminals, follow, states⟩, tables⟩ := g
  obtain rfl : names = symbolTable rules := hg.names_eq
  obtain rfl : productions = rules.map (Rule.encode (symbolTable rules)) := hg.productions_eq
  obtain rfl : nonterminals = (nonterminalTable rules).size := hg.nonterminals_eq
  obtain rfl : firstSets = firstOf rules := hg.first_eq
  obtain rfl : states = (automatonOf rules).states := hg.states_eq
  obtain rfl : follow = (automatonOf rules).follow := hg.follow_eq
  rfl

/-- The automaton of a grammar that has been built is in good order. -/
theorem wellFormed : g.automaton.WellFormed := by
  have hne : g.rules ≠ [] := by
    rw [hg.rules_eq]
    exact List.cons_ne_nil _ _
  rw [hg.automaton_eq]
  exact wellFormed_automatonOf hne fun r hr s hs => hg.name_ne_endName hr hs

end IsBuiltFrom

end Grammar

end GuardedGrammar
