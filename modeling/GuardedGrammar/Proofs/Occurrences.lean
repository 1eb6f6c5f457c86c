/-
  What a target means.

  A symbol goes by its name, and by its index if it has one.  In a rule, a target means the left-hand
  side if that goes by it, and otherwise the leftmost symbol of the right-hand side that does
  (`Rule.Means`).  So two targets may well mean one occurrence, such as the name of a symbol and its
  index, and one name may stand for several symbols of which it means only the first.

  A rule is bound to entries exactly if they hold the symbols of its right-hand side
  (`bind_eq_ok_iff`), and it stays so bound whatever is done in its scope (`IsBound.run`).  In such a
  scope each target has the attributes of the occurrence that it means, and those of no other: a value
  that is assigned by way of one target is read by way of the targets that mean the same occurrence,
  and nothing else is changed (`read_assign`).

  Main statement: `bind_shares_occurrences`.
-/
import GuardedGrammar.Grammar.Build
import GuardedGrammar.Proofs.Confined

namespace GuardedGrammar

/-! ## Targets in a rule -/

/-- A symbol goes by its name, and by its index if it has one. -/
inductive Symbol.GoesBy (s : Symbol) : Target → Prop
  | name : GoesBy s (.named s.name)
  | index {i : Nat} (hindex : s.index = some i) : GoesBy s (.numbered i)

/-- A target means the left-hand side if that goes by it, and otherwise the leftmost symbol of the
right-hand side that does. -/
inductive Rule.Means (r : Rule) (t : Target) : Slot → Prop
  | lhs (hlhs : r.lhs.GoesBy t) : Means r t .lhs
  | rhs {k : Nat} {s : Symbol} (hlhs : ¬r.lhs.GoesBy t) (hs : r.rhs[k]? = some s) (hk : s.GoesBy t)
    (hleft : ∀ j < k, ∀ s', r.rhs[j]? = some s' → ¬s'.GoesBy t) : Means r t (.rhs k)

namespace Symbol

/-- The test whether a symbol goes by a target says so exactly if it does. -/
theorem answers_iff (s : Symbol) (t : Target) : s.answers t = true ↔ s.GoesBy t := by
  cases t with
  | named name =>
    constructor
    · intro h
      obtain rfl : s.name = name := eq_of_beq h
      exact .name
    · rintro ⟨⟩
      exact beq_self_eq_true _
  | numbered i =>
    constructor
    · intro h
      exact .index (eq_of_beq h)
    · rintro (_ | hindex)
      exact beq_iff_eq.2 hindex

theorem answers_eq_false_iff (s : Symbol) (t : Target) : s.answers t = false ↔ ¬s.GoesBy t := by
  rw [← s.answers_iff, Bool.not_eq_true]

end Symbol

namespace Rule

variable {r : Rule} {t : Target} {slot slot' : Slot}

/-- What is looked up for a target is the occurrence that it means. -/
theorem slot?_eq_some_iff : r.slot? t = some slot ↔ r.Means t slot := by
  unfold slot?
  by_cases hlhs : r.lhs.GoesBy t
  · rw [if_pos ((r.lhs.answers_iff t).2 hlhs)]
    constructor
    · rintro ⟨⟩
      exact .lhs hlhs
    · rintro (_ | ⟨hnot, -, -, -⟩)
      · rfl
      · exact absurd hlhs hnot
  · rw [if_neg (fun h => hlhs ((r.lhs.answers_iff t).1 h)), Option.map_eq_some_iff]
    constructor
    · rintro ⟨k, hk, rfl⟩
      obtain ⟨hlt, hfound, hbefore⟩ := List.findIdx?_eq_some_iff_getElem.1 hk
      refine .rhs hlhs (List.getElem?_eq_getElem hlt) ((Symbol.answers_iff _ t).1 hfound) ?_
      intro j hj s' hs'
      obtain ⟨hlt', rfl⟩ := List.getElem?_eq_some_iff.1 hs'
      exact fun h => hbefore j hj ((Symbol.answers_iff _ t).2 h)
    · -- the leftmost one is where the search ends
      rintro (hlhs' | ⟨-, hs, hk, hleft⟩)
      · exact absurd hlhs' hlhs
      · obtain ⟨hlt, rfl⟩ := List.getElem?_eq_some_iff.1 hs
        refine ⟨_, List.findIdx?_eq_some_iff_getElem.2 ⟨hlt, (Symbol.answers_iff _ t).2 hk, ?_⟩, rfl⟩
        intro j hj h
        exact hleft j hj _ (List.getElem?_eq_getElem _) ((Symbol.answers_iff _ t).1 h)

/-- A target means at most one occurrence. -/
theorem Means.unique (h : r.Means t slot) (h' : r.Means t slot') : slot = slot' :=
  Option.some.inj ((slot?_eq_some_iff.2 h).symm.trans (slot?_eq_some_iff.2 h'))

/-- A target means nothing if no symbol of the rule goes by it. -/
theorem slot?_eq_none_iff : r.slot? t = none ↔ ∀ s ∈ r.symbols, ¬s.GoesBy t := by
  unfold slot? symbols
  rw [List.forall_mem_cons]
  by_cases hlhs : r.lhs.GoesBy t
  · rw [if_pos ((r.lhs.answers_iff t).2 hlhs)]
    exact ⟨fun h => (nomatch h), fun h => absurd hlhs h.1⟩
  · rw [if_neg (fun h => hlhs ((r.lhs.answers_iff t).1 h)), Option.map_eq_none_iff,
      List.findIdx?_eq_none_iff]
    constructor
    · intro h
      exact ⟨hlhs, fun s hs => (s.answers_eq_false_iff t).1 (h s hs)⟩
    · intro h s hs
      exact (s.answers_eq_false_iff t).2 (h.2 s hs)

end Rule

namespace Scope

/-! ## Binding -/

/-- Nothing is amiss if the entries hold the names in question. By induction on the right-hand
side. -/
theorem mismatch?_eq_none_iff (rhs : List Symbol) (entries : List StackEntry)
    (hlength : entries.length = rhs.length) :
    mismatch? rhs entries = none ↔ entries.map (·.symbol) = rhs.map Symbol.name := by
  induction rhs generalizing entries with
  | nil =>
    obtain rfl := List.length_eq_zero_iff.1 hlength
    exact ⟨fun _ => rfl, fun _ => rfl⟩
  | cons s rhs ih =>
    cases entries with
    | nil => exact nomatch hlength
    | cons e entries =>
      unfold mismatch?
      rw [List.map_cons, List.map_cons, List.cons.injEq, ← ih entries (Nat.succ.inj hlength)]
      by_cases hname : s.name = e.symbol
      · rw [if_pos hname]
        exact ⟨fun h => ⟨hname.symm, h⟩, fun h => h.2⟩
      · rw [if_neg hname]
        exact ⟨fun h => (nomatch h), fun h => absurd h.1.symm hname⟩

/-- The entries hold the symbols of the right-hand side, one each. -/
def IsBound (c : Scope) : Prop := c.entries.map (·.symbol) = c.rule.rhs.map Symbol.name

/-- A rule can be bound to entries that hold the symbols of its right-hand side, and to no others. -/
theorem bind_eq_ok_iff {rule : Rule} {entries : List StackEntry} {registers : Nat} {output : Sink}
    {c : Scope} :
    bind rule entries registers output = .ok c ↔
      entries.map (·.symbol) = rule.rhs.map Symbol.name ∧
        c = { rule, entries, registers, output } := by
  unfold bind
  by_cases hlength : entries.length = rule.rhs.length
  · rw [if_neg (fun h => h hlength)]
    rw [← mismatch?_eq_none_iff _ _ hlength]
    cases mismatch? rule.rhs entries with
    | none => exact ⟨fun h => ⟨rfl, (Except.ok.inj h).symm⟩, fun h => congrArg Except.ok h.2.symm⟩
    | some _ => exact ⟨fun h => (nomatch h), fun h => (nomatch h.1)⟩
  · rw [if_pos hlength]
    refine ⟨fun h => (nomatch h), fun h => absurd ?_ hlength⟩
    simpa only [List.length_map] using congrArg List.length h.1

variable {c : Scope} {slot slot' : Slot} {t : Target}

theorem IsBound.length (h : c.IsBound) : c.entries.length = c.rule.rhs.length := by
  simpa only [List.length_map] using congrArg List.length h

/-- A scope stays bound, whatever is done in it. -/
theorem IsBound.run {α : Type} {task : Task Scope ParseError α} (h : c.IsBound)
    (ht : Confined task) : (task.run c).state.IsBound := by
  have hsymbols := congrArg (List.map Prod.snd) (ht.places c)
  rw [List.map_map, List.map_map] at hsymbols
  unfold IsBound at h ⊢
  rw [ht.rule c, ← h]
  exact hsymbols

/-! ## Reading and assigning

Attributes belong to the occurrences of a rule: those of the left-hand side are collected in the
scope, and those of a symbol on the right are with its entry. Reading and assigning look up the
occurrence that the target means. -/

/-- The value of an attribute is read from the occurrence that the target means. -/
theorem read_of_means (h : c.rule.Means t slot) (name : String) :
    c.read ⟨t, name⟩ =
      match (c.attributes slot).get? name with
      | some value => .ok value
      | none => .error (.missingAttribute ⟨t, name⟩) := by
  unfold read
  rw [Rule.slot?_eq_some_iff.2 h]
  dsimp only
  cases (c.attributes slot).get? name <;> rfl

/-- Nothing can be read by way of a target that means nothing. -/
theorem read_of_forall_not_goesBy (h : ∀ s ∈ c.rule.symbols, ¬s.GoesBy t) (name : String) :
    c.read ⟨t, name⟩ = .error (.unboundTarget t) := by
  unfold read
  rw [Rule.slot?_eq_none_iff.2 h]

/-- An occurrence that is meant is there. -/
theorem IsBound.lt_of_means (h : c.IsBound) {k : Nat} (hk : c.rule.Means t (.rhs k)) :
    k < c.entries.length := by
  rw [h.length]
  cases hk with
  | rhs _ hs => exact (List.getElem?_eq_some_iff.1 hs).1

/-- An assignment changes the attributes of its occurrence. -/
theorem attributes_assign_self (hslot : ∀ k, slot = .rhs k → k < c.entries.length)
    (name value : String) :
    (c.assign slot name value).attributes slot = (c.attributes slot).insert name value := by
  cases slot with
  | lhs => rfl
  | rhs k =>
    have hlt : k < c.entries.length := hslot k rfl
    unfold assign attributes
    dsimp only
    rw [List.getElem?_modify, List.getElem?_eq_getElem hlt]
    show ((some (if k = k then _ else _)).map _).getD ∅ = _
    rw [if_pos rfl]
    rfl

/-- An assignment leaves the attributes of other occurrences alone. -/
theorem attributes_assign_of_ne (hslot : slot' ≠ slot) (name value : String) :
    (c.assign slot name value).attributes slot' = c.attributes slot' := by
  cases slot with
  | lhs =>
    cases slot' with
    | lhs => exact absurd rfl hslot
    | rhs => rfl
  | rhs k =>
    cases slot' with
    | lhs => rfl
    | rhs j =>
      have hne : k ≠ j := fun h => hslot (congrArg Slot.rhs h.symm)
      unfold assign attributes
      dsimp only
      rw [List.getElem?_modify]
      cases c.entries[j]? with
      | none => rfl
      | some e =>
        show ((some (if k = j then _ else e)).map _).getD ∅ = _
        rw [if_neg hne]

/-- By way of a target that means the occurrence, the value is read that has been assigned; what is read
by way of any other target, or of another attribute, is what was read before. -/
theorem read_assign (hslot : ∀ k, slot = .rhs k → k < c.entries.length) (ref : AttributeRef)
    (name value : String) :
    (c.rule.Means ref.target slot ∧ ref.name = name →
        (c.assign slot name value).read ref = .ok value) ∧
      (¬(c.rule.Means ref.target slot ∧ ref.name = name) →
        (c.assign slot name value).read ref = c.read ref) := by
  obtain ⟨t, n⟩ := ref
  have hrule := c.assign_rule slot name value
  have hself := attributes_assign_self hslot name value
  constructor
  · rintro ⟨hmeans, rfl⟩
    rw [read_of_means (hrule ▸ hmeans), hself, Attributes.get?_insert, if_pos rfl]
  · intro hother
    cases ht : c.rule.slot? t with
    | none =>
      have hnot := Rule.slot?_eq_none_iff.1 ht
      rw [read_of_forall_not_goesBy (hrule ▸ hnot), read_of_forall_not_goesBy hnot]
    | some slot' =>
      have hmeans := Rule.slot?_eq_some_iff.1 ht
      rw [read_of_means (hrule ▸ hmeans), read_of_means hmeans]
      -- another attribute of the occurrence, or another occurrence
      by_cases hsame : slot' = slot
      · subst hsame
        have hname : n ≠ name := fun h => hother ⟨hmeans, h⟩
        rw [hself, Attributes.get?_insert, if_neg hname]
      · rw [attributes_assign_of_ne hsame]

/-! A value is assigned to the occurrence that the target means, and nothing else happens; if it
means none, nothing is assigned. -/

theorem run_assignTo_of_means {ref : AttributeRef} (h : c.rule.Means ref.target slot)
    (value : String) :
    (assignTo ref value).run c = ⟨[], c.assign slot ref.name value, .ok ()⟩ := by
  unfold assignTo
  rw [Task.run_get_bind, Rule.slot?_eq_some_iff.2 h]
  rfl

theorem run_assignTo_of_slot?_eq_none {ref : AttributeRef} (h : c.rule.slot? ref.target = none)
    (value : String) :
    (assignTo ref value).run c = ⟨[], c, .error (.unboundTarget ref.target)⟩ := by
  unfold assignTo
  rw [Task.run_get_bind, h]
  rfl

/-- What is read does not depend on the number of the next register. -/
theorem read_registers (c : Scope) (registers : Nat) (ref : AttributeRef) :
    { c with registers }.read ref = c.read ref := rfl

/-- An assignment is carried out if the expression has a value and the target means an occurrence. -/
theorem result_assign_eq_ok_iff {ref : AttributeRef} {e : Expression} :
    ((perform (.assign ref e)).run c).result = .ok () ↔
      (∃ value, ((evaluate e).run c).result = .ok value) ∧
        ∃ slot, c.rule.Means ref.target slot := by
  unfold perform
  rw [Task.run_bind]
  have hrule := (confined_evaluate e).rule c
  cases ((evaluate e).run c).result with
  | error err => exact ⟨fun h => (nomatch h), fun ⟨⟨_, h⟩, _⟩ => (nomatch h)⟩
  | ok value =>
    dsimp only
    cases ht : c.rule.slot? ref.target with
    | none =>
      rw [run_assignTo_of_slot?_eq_none (hrule ▸ ht)]
      refine ⟨fun h => (nomatch h), fun ⟨_, slot, h⟩ => ?_⟩
      exact nomatch ht.symm.trans (Rule.slot?_eq_some_iff.2 h)
    | some slot =>
      have hmeans := Rule.slot?_eq_some_iff.1 ht
      rw [run_assignTo_of_means (hrule ▸ hmeans)]
      exact ⟨fun _ => ⟨⟨value, rfl⟩, slot, hmeans⟩, fun _ => rfl⟩

/-- After an assignment, the scope differs from what the expression has left in that attribute
only. -/
theorem state_assign {ref : AttributeRef} {e : Expression} {value : String}
    (hvalue : ((evaluate e).run c).result = .ok value) (hmeans : c.rule.Means ref.target slot) :
    ((perform (.assign ref e)).run c).state =
      ({ c with registers := ((evaluate e).run c).state.registers }).assign slot ref.name value := by
  have hrule := (confined_evaluate e).rule c
  unfold perform
  rw [Task.run_bind, hvalue]
  dsimp only
  rw [run_assignTo_of_means (hrule ▸ hmeans), ← state_evaluate e c]

/-- The attributes that are read by way of a target. -/
def Addresses (c : Scope) (t : Target) (attributes : Attributes) : Prop :=
  ∀ name, c.read ⟨t, name⟩ =
    match attributes.get? name with
    | some value => .ok value
    | none => .error (.missingAttribute ⟨t, name⟩)

/-- A rule can be bound to the entries that hold the symbols of its right-hand side, one each, and to no
others.  In its scope a target addresses what is yet to be given to the left-hand side, if that goes by
it, otherwise the entry of the leftmost symbol that goes by it, and if there is none, nothing.

In whatever scope the rule is bound, an assignment is carried out if the expression has a value and the
target means an occurrence; it changes the attributes of that occurrence.  From then on the value is
what is read of the attribute by way of every target that means the same occurrence; and whatever else
is read is as it was before, be it a value or an error. -/
theorem bind_shares_occurrences (rule : Rule) (entries : List StackEntry) (registers : Nat)
    (output : Sink) :
    ((∃ c, bind rule entries registers output = .ok c) ↔
        entries.map (·.symbol) = rule.rhs.map Symbol.name) ∧
      (∀ c, bind rule entries registers output = .ok c →
        c.rule = rule ∧ c.IsBound ∧ c.lhs = ∅ ∧ ∀ t,
          (rule.lhs.GoesBy t → c.Addresses t c.lhs) ∧
          (∀ k e, rule.Means t (.rhs k) → entries[k]? = some e → c.Addresses t e.attributes) ∧
          ((∀ s ∈ rule.symbols, ¬s.GoesBy t) →
            ∀ name, c.read ⟨t, name⟩ = .error (.unboundTarget t))) ∧
      ∀ c : Scope, c.rule = rule → c.IsBound → ∀ (ref : AttributeRef) (e : Expression),
        (((perform (.assign ref e)).run c).result = .ok () ↔
          (∃ value, ((evaluate e).run c).result = .ok value) ∧
            ∃ slot, rule.Means ref.target slot) ∧
        ∀ value slot, ((evaluate e).run c).result = .ok value → rule.Means ref.target slot →
          ((perform (.assign ref e)).run c).state.attributes slot =
              (c.attributes slot).insert ref.name value ∧
          (∀ slot', slot' ≠ slot →
            ((perform (.assign ref e)).run c).state.attributes slot' = c.attributes slot') ∧
          ∀ ref' : AttributeRef,
            (rule.Means ref'.target slot ∧ ref'.name = ref.name →
              ((perform (.assign ref e)).run c).state.read ref' = .ok value) ∧
            (¬(rule.Means ref'.target slot ∧ ref'.name = ref.name) →
              ((perform (.assign ref e)).run c).state.read ref' = c.read ref') := by
  refine ⟨?_, fun c hc => ?_, ?_⟩
  · constructor
    · rintro ⟨c, hc⟩
      exact (bind_eq_ok_iff.1 hc).1
    · intro h
      exact ⟨_, bind_eq_ok_iff.2 ⟨h, rfl⟩⟩
  · obtain ⟨hbound, rfl⟩ := bind_eq_ok_iff.1 hc
    refine ⟨rfl, hbound, rfl, fun t => ⟨fun hlhs name => ?_, fun k e hmeans he name => ?_, ?_⟩⟩
    · exact read_of_means (.lhs hlhs) name
    · have hattributes : ({ rule, entries, registers, output } : Scope).attributes (.rhs k) =
          e.attributes := by
        unfold attributes
        dsimp only
        rw [he]
        rfl
      rw [read_of_means hmeans, hattributes]
    · exact fun hnot name => read_of_forall_not_goesBy hnot name
  · rintro c rfl hbound ref e
    refine ⟨result_assign_eq_ok_iff, fun value slot hvalue hmeans => ?_⟩
    have hlt : ∀ k, slot = .rhs k → k < c.entries.length := by
      intro k hk
      exact hbound.lt_of_means (hk ▸ hmeans)
    -- the expression may have taken a register, which nothing that is read depends on
    rw [state_assign hvalue hmeans]
    generalize ((evaluate e).run c).state.registers = registers
    refine ⟨attributes_assign_self (c := { c with registers }) hlt ref.name value,
      fun slot' hslot => attributes_assign_of_ne (c := { c with registers }) hslot ref.name value,
      fun ref' => ?_⟩
    rw [← read_registers c registers ref']
    exact read_assign (c := { c with registers }) hlt ref' ref.name value

/-- A sum of two terms; three of its symbols have one name. -/
def sumRule : Rule where
  lhs := ⟨"E", some 0⟩
  rhs := [⟨"E", some 1⟩, ⟨"+", none⟩, ⟨"E", some 2⟩]

/-- Two terms with their values. -/
def sumEntries : List StackEntry :=
  [⟨1, "E", .ofList [("v", "1")]⟩, ⟨2, "+", ∅⟩, ⟨3, "E", .ofList [("v", "2")]⟩]

/-- In a sum, the name of the terms means the sum itself: what is assigned to the sum by its index is
read by that name, and the terms keep their values. -/
theorem bind_sum_shares_occurrences : ∃ c, bind sumRule sumEntries 0 {} = .ok c ∧
    c.read ⟨.named "E", "v"⟩ = .error (.missingAttribute ⟨.named "E", "v"⟩) ∧
    c.read ⟨.numbered 2, "v"⟩ = .ok "2" ∧
    c.read ⟨.numbered 3, "v"⟩ = .error (.unboundTarget (.numbered 3)) ∧
    ((perform (.assign ⟨.numbered 0, "v"⟩ (.literal "3"))).run c).state.read ⟨.named "E", "v"⟩ =
      .ok "3" ∧
    ((perform (.assign ⟨.numbered 0, "v"⟩ (.literal "3"))).run c).state.read ⟨.numbered 1, "v"⟩ =
      c.read ⟨.numbered 1, "v"⟩ := by
  obtain ⟨hbind, hreads, hassigns⟩ := bind_shares_occurrences sumRule sumEntries 0 {}
  obtain ⟨c, hc⟩ := hbind.2 (by decide)
  obtain ⟨hrule, hbound, hlhs, haddresses⟩ := hreads c hc
  -- what the targets mean can be computed
  have hterm : sumRule.Means (.numbered 2) (.rhs 2) := Rule.slot?_eq_some_iff.1 (by decide)
  have hterm₁ : sumRule.Means (.numbered 1) (.rhs 0) := Rule.slot?_eq_some_iff.1 (by decide)
  have hsum : sumRule.Means (.numbered 0) .lhs := .lhs (.index rfl)
  have hname : sumRule.lhs.GoesBy (.named "E") := .name
  have hnone : ∀ s ∈ sumRule.symbols, ¬s.GoesBy (.numbered 3) :=
    Rule.slot?_eq_none_iff.1 (by decide)
  obtain ⟨-, hassigned⟩ := hassigns c hrule hbound ⟨.numbered 0, "v"⟩ (.literal "3")
  refine ⟨c, hc, ?_, ?_, ?_, ?_, ?_⟩
  · rw [(haddresses (.named "E")).1 hname "v", hlhs]
    rfl
  · exact (haddresses (.numbered 2)).2.1 2 ⟨3, "E", .ofList [("v", "2")]⟩ hterm rfl "v"
  · exact (haddresses (.numbered 3)).2.2 hnone "v"
  · exact ((hassigned "3" .lhs rfl hsum).2.2 ⟨.named "E", "v"⟩).1 ⟨.lhs hname, rfl⟩
  · refine ((hassigned "3" .lhs rfl hsum).2.2 ⟨.numbered 1, "v"⟩).2 fun h => ?_
    exact nomatch h.1.unique hterm₁

end Scope

end GuardedGrammar
