/-
  Which reductions a cell keeps.

  A production gives way to one that is longer, or as long and listed later (`GivesWay`).  The reductions
  that are entered in a cell come in the order of their productions, so whenever one takes the place of
  another, that one gives way to it.  In the end a cell that does not accept holds all reductions with
  a guard that were entered and, of those without, exactly the one that all others give way to
  (`Holds.receive`).
-/
import GuardedGrammar.Proofs.Cells
import Mathlib.Data.List.Nodup

namespace GuardedGrammar

namespace Cell

variable {productions : List Production} {c : Cell} {a b d : Action} {p q r : Nat}

/-! ## Replacing an action -/

/-- Replacing an entry by a new one leaves no entry twice. -/
theorem nodup_replace (h : c.Nodup) (hd : d ∉ c) : (c.replace b d).Nodup := by
  induction c with
  | nil => exact h
  | cons e c ih =>
    obtain ⟨he, hc⟩ := List.nodup_cons.1 h
    obtain ⟨hde, hdc⟩ := not_or.1 (fun hmem => hd (List.mem_cons.2 hmem))
    rw [List.replace_cons]
    split
    · exact List.nodup_cons.2 ⟨hdc, hc⟩
    · refine List.nodup_cons.2 ⟨fun hmem => ?_, ih hc hdc⟩
      exact (mem_of_mem_replace hmem).elim he fun hed => hde hed.symm

/-- What has been replaced is no longer there, since it was there only once. -/
theorem not_mem_replace_self (h : c.Nodup) (hne : b ≠ d) : b ∉ c.replace b d := by
  induction c with
  | nil => exact List.not_mem_nil
  | cons e c ih =>
    obtain ⟨he, hc⟩ := List.nodup_cons.1 h
    rw [List.replace_cons]
    split
    · rename_i hbe
      obtain rfl := beq_iff_eq.1 hbe
      -- what is replaced is not there a second time
      exact fun hmem => (List.mem_cons.1 hmem).elim hne he
    · rename_i hbe
      refine fun hmem => (List.mem_cons.1 hmem).elim (fun hb => ?_) (ih hc)
      rw [← hb, beq_self_eq_true] at hbe
      exact nomatch hbe

/-- Replacing exchanges the one action for the other. -/
theorem mem_replace_iff (h : c.Nodup) (hb : b ∈ c) (hne : b ≠ d) :
    a ∈ c.replace b d ↔ a ∈ c ∧ a ≠ b ∨ a = d := by
  constructor
  · intro ha
    rcases mem_of_mem_replace ha with hac | rfl
    · exact .inl ⟨hac, fun hab => not_mem_replace_self h hne (hab ▸ ha)⟩
    · exact .inr rfl
  · rintro (⟨ha, hab⟩ | rfl)
    · exact mem_replace_of_ne ha hab
    · exact mem_replace_self hb

theorem nodup_append_new (h : c.Nodup) (ha : a ∉ c) : (c ++ [a]).Nodup := by
  rw [← List.concat_eq_append]
  exact h.concat ha

/-- Entering a reduction leaves no entry twice. -/
theorem nodup_enter (h : c.Nodup) : (c.enter a).Nodup := by
  unfold enter
  split
  · exact h
  · rename_i ha
    exact nodup_append_new h fun hmem => ha (List.contains_iff_mem.2 hmem)

/-! ## Which production gives way -/

/-- The production has no guard. -/
abbrev Unguarded (productions : List Production) (p : Nat) : Prop :=
  (Action.reduce p).isUnguarded productions = true

/-- The second production is longer than the first, or as long and not listed before it. -/
def GivesWay (productions : List Production) (q p : Nat) : Prop :=
  lengthOf productions q < lengthOf productions p ∨
    lengthOf productions q = lengthOf productions p ∧ q ≤ p

/-! Giving way is a partial order, in which the longer production is above the shorter one. -/

theorem GivesWay.refl (productions : List Production) (p : Nat) : GivesWay productions p p :=
  .inr ⟨rfl, Nat.le_refl p⟩

theorem GivesWay.trans (h : GivesWay productions p q) (h' : GivesWay productions q r) :
    GivesWay productions p r := by
  unfold GivesWay at *
  omega

theorem GivesWay.antisymm (h : GivesWay productions p q) (h' : GivesWay productions q p) :
    p = q := by
  unfold GivesWay at *
  omega

theorem GivesWay.length_le (h : GivesWay productions p q) :
    lengthOf productions p ≤ lengthOf productions q := by
  unfold GivesWay at h
  omega

/-! ## What a cell holds of the reductions that were entered -/

/-- The production is among those that are entered, and if it has no guard, all others without one give
way to it. -/
structure Prevails (productions : List Production) (entered : Nat → Prop) (p : Nat) : Prop where
  mem : entered p
  greatest : Unguarded productions p → ∀ q, entered q → Unguarded productions q →
    GivesWay productions q p

/-- A cell lists no action twice. Unless it accepts, its reductions are those that prevail among the
ones entered, and it has one without a guard if any such was entered. -/
structure Holds (productions : List Production) (entered : Nat → Prop) (c : Cell) : Prop where
  nodup : c.Nodup
  reduce : ∀ p, .reduce p ∈ c ↔ .accept ∉ c ∧ Prevails productions entered p
  unguarded : .accept ∉ c → ∀ q, entered q → Unguarded productions q →
    ∃ p, .reduce p ∈ c ∧ Unguarded productions p

variable {entered : Nat → Prop}

theorem holds_nil (productions : List Production) : Holds productions (fun _ => False) [] where
  nodup := List.nodup_nil
  reduce _ := ⟨fun h => absurd h List.not_mem_nil, fun h => h.2.mem.elim⟩
  unguarded _ _ h := h.elim

theorem Holds.congr {entered' : Nat → Prop} (h : Holds productions entered c)
    (he : ∀ p, entered p ↔ entered' p) : Holds productions entered' c := by
  rwa [← funext fun p => propext (he p)]

/-- Of the reductions without a guard a cell has only one. -/
theorem Holds.eq_of_unguarded (h : Holds productions entered c) (hp : .reduce p ∈ c)
    (hpun : Unguarded productions p) (hq : .reduce q ∈ c) (hqun : Unguarded productions q) :
    p = q := by
  have hgreatest := ((h.reduce q).1 hq).2.greatest hqun p ((h.reduce p).1 hp).2.mem hpun
  exact hgreatest.antisymm
    (((h.reduce p).1 hp).2.greatest hpun q ((h.reduce q).1 hq).2.mem hqun)

/-- If any reduction is entered, a cell that does not accept has one. -/
theorem Holds.exists_reduce (h : Holds productions entered c) (haccept : .accept ∉ c)
    (hq : entered q) : ∃ p, .reduce p ∈ c := by
  by_cases hun : Unguarded productions q
  · obtain ⟨p, hp, -⟩ := h.unguarded haccept q hq hun
    exact ⟨p, hp⟩
  · exact ⟨q, (h.reduce q).2 ⟨haccept, hq, fun h => absurd h hun⟩⟩

/-- A shift leaves the reductions of a cell alone. -/
theorem Holds.shift (h : Holds productions entered c) (j : Nat) :
    Holds productions entered (c.enter (.shift j)) where
  nodup := nodup_enter h.nodup
  reduce p := by
    rw [mem_enter, mem_enter, or_iff_left (by simp), or_iff_left (by simp)]
    exact h.reduce p
  unguarded haccept q hq hqun := by
    obtain ⟨p, hp, hpun⟩ := h.unguarded (fun ha => haccept (mem_enter.2 (.inl ha))) q hq hqun
    exact ⟨p, mem_enter.2 (.inl hp), hpun⟩

/-- A cell can come to accept while no reduction has been entered. -/
theorem Holds.accept (h : Holds productions entered c) (hnone : ∀ p, ¬entered p) :
    Holds productions entered (c.enter .accept) where
  nodup := nodup_enter h.nodup
  reduce p := by
    rw [mem_enter, or_iff_left (by simp), h.reduce]
    exact ⟨fun hp => absurd hp.2.mem (hnone p), fun hp => absurd hp.2.mem (hnone p)⟩
  unguarded _ q hq := absurd hq (hnone q)

/-- What prevails among more productions prevails among fewer. -/
theorem Prevails.of_insert (h : Prevails productions (fun q => entered q ∨ q = p) q)
    (hq : entered q) : Prevails productions entered q :=
  ⟨hq, fun hqun r hr => h.greatest hqun r (.inl hr)⟩

/-- A production still prevails when another is entered that gives way to it. -/
theorem Prevails.insert (h : Prevails productions entered q)
    (hp : Unguarded productions q → Unguarded productions p → GivesWay productions p q) :
    Prevails productions (fun q => entered q ∨ q = p) q := by
  refine ⟨.inl h.mem, fun hqun r hr hrun => ?_⟩
  rcases hr with hr | rfl
  · exact h.greatest hqun r hr hrun
  · exact hp hqun hrun

/-- A production prevails when it is entered if all others give way to it. -/
theorem prevails_insert_self (hp : Unguarded productions p →
    ∀ q, entered q → Unguarded productions q → GivesWay productions q p) :
    Prevails productions (fun q => entered q ∨ q = p) p := by
  refine ⟨.inr rfl, fun hpun r hr hrun => ?_⟩
  rcases hr with hr | rfl
  · exact hp hpun r hr hrun
  · exact .refl _ _

/-- A reduction is refused. -/
theorem Holds.refused (h : Holds productions entered c) (hrefused : .accept ∈ c ∨ .reduce p ∈ c ∨
    Unguarded productions p ∧ ∃ q, .reduce q ∈ c ∧ Unguarded productions q ∧
      lengthOf productions p < lengthOf productions q) :
    Holds productions (fun q => entered q ∨ q = p) c := by
  rcases hrefused with haccept | hp | ⟨hpun, q, hq, hqun, hlt⟩
  · refine ⟨h.nodup, fun r => ?_, fun hno => absurd haccept hno⟩
    exact ⟨fun hr => absurd haccept ((h.reduce r).1 hr).1, fun hr => absurd haccept hr.1⟩
  -- entered before
  · have hentered := ((h.reduce p).1 hp).2.mem
    exact h.congr fun r => (or_iff_left_of_imp fun he => he ▸ hentered).symm
  -- shorter than one without a guard, to which all others give way
  · obtain ⟨haccept, hprevails⟩ := (h.reduce q).1 hq
    refine ⟨h.nodup, fun r => (h.reduce r).trans (and_congr_right fun _ => ?_), ?_⟩
    · constructor
      · intro hr
        refine hr.insert fun hrun _ => .inl (Nat.lt_of_lt_of_le hlt ?_)
        exact (hr.greatest hrun q hprevails.mem hqun).length_le
      · intro hr
        refine hr.of_insert (hr.mem.resolve_right ?_)
        rintro rfl
        exact absurd (hr.greatest hpun q (.inl hprevails.mem) hqun).length_le (Nat.not_le.2 hlt)
    · exact fun _ _ _ _ => ⟨q, hq, hqun⟩

/-- A reduction is added at the end. -/
theorem Holds.added (h : Holds productions entered c)
    (hfirst : Unguarded productions p → ∀ a ∈ c, a.isUnguarded productions = false)
    (haccept : .accept ∉ c) (hnew : .reduce p ∉ c) :
    Holds productions (fun q => entered q ∨ q = p) (c ++ [.reduce p]) := by
  -- if it has no guard, it is the first without one
  have hnone : Unguarded productions p → ∀ q, entered q → ¬Unguarded productions q := by
    intro hpun q hq hqun
    obtain ⟨r, hr, hrun⟩ := h.unguarded haccept q hq hqun
    exact absurd hrun (by rw [Unguarded, hfirst hpun _ hr]; decide)
  have hmem : ∀ r, .reduce r ∈ c ++ [Action.reduce p] ↔ .reduce r ∈ c ∨ r = p := fun r => by
    rw [List.mem_append, List.mem_singleton, Action.reduce.injEq]
  refine ⟨nodup_append_new h.nodup hnew, fun r => ?_, fun _ q hq hqun => ?_⟩
  · have haccept' : .accept ∉ c ++ [Action.reduce p] := by
      rw [List.mem_append, List.mem_singleton]
      exact fun ha => ha.elim haccept (fun ha => nomatch ha)
    rw [hmem, and_iff_right haccept', h.reduce, and_iff_right haccept]
    constructor
    · rintro (hr | rfl)
      · exact hr.insert fun hrun hpun => absurd hrun (hnone hpun r hr.mem)
      · exact prevails_insert_self fun hpun q hq hqun => absurd hqun (hnone hpun q hq)
    · intro hr
      exact hr.mem.imp_left hr.of_insert
  · rcases hq with hq | rfl
    · obtain ⟨r, hr, hrun⟩ := h.unguarded haccept q hq hqun
      exact ⟨r, (hmem r).2 (.inl hr), hrun⟩
    · exact ⟨q, (hmem q).2 (.inr rfl), hqun⟩

/-- A reduction that is listed behind all others takes the place of one that is no longer. -/
theorem Holds.replaced (h : Holds productions entered c) (hlast : ∀ q, entered q → q ≤ p)
    (hq : .reduce q ∈ c) (hqun : Unguarded productions q) (hpun : Unguarded productions p)
    (hle : lengthOf productions q ≤ lengthOf productions p) (hnew : .reduce p ∉ c) :
    Holds productions (fun q => entered q ∨ q = p) (c.replace (.reduce q) (.reduce p)) := by
  obtain ⟨haccept, hprevails⟩ := (h.reduce q).1 hq
  have hne : q ≠ p := fun he => hnew (he ▸ hq)
  have hqp : GivesWay productions q p := by
    have := hlast q hprevails.mem
    unfold GivesWay
    omega
  have hgreatest : ∀ r, entered r → Unguarded productions r → GivesWay productions r p :=
    fun r hr hrun => (hprevails.greatest hqun r hr hrun).trans hqp
  have hmem : ∀ a, a ∈ c.replace (.reduce q) (.reduce p) ↔ a ∈ c ∧ a ≠ .reduce q ∨ a = .reduce p :=
    fun a => mem_replace_iff h.nodup hq fun he => hne (Action.reduce.inj he)
  refine ⟨nodup_replace h.nodup hnew, fun r => ?_, fun _ _ _ _ => ⟨p, (hmem _).2 (.inr rfl), hpun⟩⟩
  have haccept' : .accept ∉ c.replace (.reduce q) (.reduce p) := by
    rw [hmem]
    exact fun ha => ha.elim (fun ha => haccept ha.1) (fun ha => nomatch ha)
  rw [hmem, and_iff_right haccept', h.reduce, and_iff_right haccept, ne_eq, Action.reduce.injEq,
    Action.reduce.injEq]
  constructor
  · rintro (⟨hr, hrq⟩ | rfl)
    · refine hr.insert fun hrun _ => ?_
      -- without a guard, it would be the one that is replaced
      exact absurd (h.eq_of_unguarded ((h.reduce r).2 ⟨haccept, hr⟩) hrun hq hqun) hrq
    · exact prevails_insert_self fun _ => hgreatest
  · intro hr
    rcases hr.mem with hentered | rfl
    · refine .inl ⟨hr.of_insert hentered, ?_⟩
      rintro rfl
      exact hne (hqp.antisymm (hr.greatest hqun p (.inr rfl) hpun))
    · exact .inr rfl

/-- A cell holds what prevails after another reduction has been entered, if its production is listed
behind those that were entered before. -/
theorem Holds.receive (h : Holds productions entered c) (hlast : ∀ q, entered q → q ≤ p) :
    Holds productions (fun q => entered q ∨ q = p) (c.receive productions p) := by
  rcases receive_cases productions c p with
    ⟨he, hrefused⟩ | ⟨he, hfirst, haccept, hnew⟩ | ⟨q, he, hq, hqun, hpun, hle, -, hnew⟩
  · rw [he]
    exact h.refused hrefused
  · rw [he]
    exact h.added hfirst haccept hnew
  · rw [he]
    exact h.replaced hlast hq hqun hpun hle hnew

end Cell

end GuardedGrammar
