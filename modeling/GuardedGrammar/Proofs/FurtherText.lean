/-
  Text that a pattern does not look at.

  A pattern that cannot read some character finds the same in a text whether or not this character and
  more follow, unless it asks for the end of the text.  All of its ways to match are the same then
  (`outcomes_extend`, by induction on the pattern); of a repetition, which may go on for as many rounds
  as there are characters ahead, further rounds add nothing (`roundOutcomes_extend`).

  Main statement: `firstMatch?_append_cons`.
-/
import GuardedGrammar.Proofs.FirstMatch

namespace GuardedGrammar.Pattern

/-- Whether a pattern asks for the end of the text. -/
def asksForEnd : Pattern → Bool
  | .empty => false
  | .start => false
  | .finish => true
  | .one _ => false
  | .seq p q => p.asksForEnd || q.asksForEnd
  | .alt p q => p.asksForEnd || q.asksForEnd
  | .opt _ p => p.asksForEnd
  | .group _ p => p.asksForEnd
  | .plus _ p => p.asksForEnd
  | .star _ p => p.asksForEnd

/-- The same reading of a longer text. -/
def Reading.extend (more : List Char) (r : Reading) : Reading :=
  ⟨r.consumed, r.rest ++ more, r.groups⟩

/-! ## What all ways to match have in common -/

section

variable {P : Reading → Prop} (hnext : ∀ r k s, P r → r.next? k = some s → P s)
  (hclose : ∀ r number start, P r → P (r.close number start))

include hnext hclose in
/-- What every character that is read and every group that is closed preserve holds after a match. -/
theorem of_mem_outcomes {p : Pattern} {r s : Reading} (hr : P r) (h : s ∈ p.outcomes r) : P s := by
  have hrounds (greedy : Bool) (m : Reading → List Reading)
      (hm : ∀ r s, P r → s ∈ m r → P s) (ahead : List Char) (r s : Reading) (hr : P r)
      (h : s ∈ roundOutcomes greedy m ahead r) : P s := by
    induction ahead generalizing r with
    | nil =>
      obtain rfl := List.mem_singleton.1 h
      exact hr
    | cons _ ahead ih =>
      rcases eq_or_exists_of_mem_roundOutcomes h with rfl | ⟨t, ht, h⟩
      · exact hr
      · exact ih t (hm r t hr ht) h
  -- each kind of pattern goes from reading to reading in steps that preserve it
  induction p generalizing r s with
  | empty =>
    obtain rfl := List.mem_singleton.1 h
    exact hr
  | start =>
    unfold outcomes at h
    split at h
    · obtain rfl := List.mem_singleton.1 h
      exact hr
    · cases h
  | finish =>
    unfold outcomes at h
    split at h
    · obtain rfl := List.mem_singleton.1 h
      exact hr
    · cases h
  | one k => exact hnext r k s hr (Option.mem_toList.1 h)
  | seq p q ihp ihq =>
    obtain ⟨t, ht, h⟩ := List.mem_flatMap.1 h
    exact ihq (ihp hr ht) h
  | alt p q ihp ihq => exact (List.mem_append.1 h).elim (ihp hr) (ihq hr)
  | opt greedy p ih =>
    rcases eq_or_mem_of_mem_opt h with rfl | h
    · exact hr
    · exact ih hr h
  | group number p ih =>
    obtain ⟨t, ht, rfl⟩ := List.mem_map.1 h
    exact hclose t number _ (ih hr ht)
  | plus greedy p ih =>
    obtain ⟨t, ht, h⟩ := List.mem_flatMap.1 h
    split at h
    · exact List.mem_singleton.1 h ▸ ih hr ht
    · exact hrounds greedy _ (fun _ _ => ih) _ t s (ih hr ht) h
  | star greedy p ih => exact hrounds greedy _ (fun _ _ => ih) _ r s hr h

end

/-- Groups end where the match has come to, at the latest. -/
theorem stop_le_of_mem_outcomes {p : Pattern} {text : List Char} {s : Reading}
    (h : s ∈ p.outcomes (.ofText text)) : ∀ g ∈ s.groups, g.stop ≤ s.consumed := by
  refine of_mem_outcomes (P := fun s => ∀ g ∈ s.groups, g.stop ≤ s.consumed) (fun r k s hr hs => ?_)
    (fun r number start hr => ?_) (List.forall_mem_nil _) h
  · unfold Reading.next? at hs
    split at hs
    · cases hs
    · split at hs
      · cases hs
        exact fun g hg => Nat.le_succ_of_le (hr g hg)
      · cases hs
  · -- a group that is closed ends where the match has come to
    exact List.forall_mem_cons.2 ⟨Nat.le_refl _, hr⟩

/-! ## Longer texts -/

section

variable {c : Char} {more : List Char}

/-- A character that is not of the class is like the end: nothing can be read there. -/
theorem next?_extend {k : CharClass} (hk : k.contains c = false) (r : Reading) :
    (r.extend (c :: more)).next? k = (r.next? k).map (Reading.extend (c :: more)) := by
  obtain ⟨n, rest, groups⟩ := r
  cases rest with
  | nil => simp [Reading.next?, Reading.extend, hk]
  | cons d rest =>
    by_cases hd : k.contains d = true
    · simp [Reading.next?, Reading.extend, hd]
    · simp [Reading.next?, Reading.extend, hd]

/-- What the outcomes of a repetition are, if there is something ahead, told from those of going
on. -/
theorem roundOutcomes_cons {greedy : Bool} {m : Reading → List Reading} {d : Char}
    {ahead : List Char} {r : Reading} {further : List Reading}
    (h : ((m r).flatMap fun s =>
      if s.consumed = r.consumed then [] else roundOutcomes greedy m ahead s) = further) :
    roundOutcomes greedy m (d :: ahead) r = if greedy then further ++ [r] else r :: further := by
  subst h
  rfl

/-- The rounds for which a repetition can go on are as many as there are characters ahead; if it could go
on for more, that would be the same. -/
theorem roundOutcomes_extend {p : Pattern} (greedy : Bool)
    (hp : ∀ r : Reading, p.outcomes (r.extend (c :: more)) =
      (p.outcomes r).map (Reading.extend (c :: more)))
    {ahead longer : List Char} (hlonger : ahead.length ≤ longer.length) {r : Reading}
    (hr : r.rest.length ≤ ahead.length) :
    roundOutcomes greedy p.outcomes longer (r.extend (c :: more)) =
      (roundOutcomes greedy p.outcomes ahead r).map (Reading.extend (c :: more)) := by
  induction longer generalizing ahead r with
  | nil =>
    obtain rfl := List.eq_nil_of_length_eq_zero (Nat.le_zero.1 hlonger)
    rfl
  | cons d longer ih =>
    -- a round that reads something leaves less than there was
    have hshorter (s : Reading) (hs : s ∈ p.outcomes r) (hread : s.consumed ≠ r.consumed) :
        s.rest.length < r.rest.length := by
      obtain ⟨u, hu, -⟩ := exists_denotes_of_mem_outcomes p r s hs
      have hlength := congrArg List.length hu.rest
      rw [List.length_append] at hlength
      have := hu.consumed
      omega
    have hmore (ahead' : List Char) (hahead' : ahead'.length ≤ longer.length)
        (hr' : ∀ s ∈ p.outcomes r, s.consumed ≠ r.consumed → s.rest.length ≤ ahead'.length) :
        ((p.outcomes (r.extend (c :: more))).flatMap fun s =>
          if s.consumed = (r.extend (c :: more)).consumed then []
          else roundOutcomes greedy p.outcomes longer s) =
        ((p.outcomes r).flatMap fun s => if s.consumed = r.consumed then []
          else roundOutcomes greedy p.outcomes ahead' s).map (Reading.extend (c :: more)) := by
      rw [hp, List.flatMap_map, List.map_flatMap]
      refine List.flatMap_congr fun s hs => ?_
      by_cases hread : s.consumed = r.consumed
      · simp [Reading.extend, hread]
      · have hbehind := ih hahead' (hr' s hs hread)
        rw [if_neg hread, ← hbehind]
        exact if_neg hread
    cases ahead with
    | nil =>
      -- nothing is ahead, so no round reads anything
      have hnone (s : Reading) (hs : s ∈ p.outcomes r) : s.consumed = r.consumed := by
        by_contra hread
        exact absurd (Nat.lt_of_lt_of_le (hshorter s hs hread) hr) (Nat.not_lt_zero _)
      have hmore := hmore [] (Nat.zero_le _) fun s hs hread => absurd (hnone s hs) hread
      have hempty : ((p.outcomes r).flatMap fun s => if s.consumed = r.consumed then []
          else roundOutcomes greedy p.outcomes [] s) = [] :=
        List.flatMap_eq_nil_iff.2 fun s hs => if_pos (hnone s hs)
      rw [hempty] at hmore
      rw [roundOutcomes_cons hmore]
      cases greedy <;> rfl
    | cons d' ahead =>
      have hmore := hmore ahead (Nat.le_of_succ_le_succ hlonger) fun s hs hread =>
        Nat.le_of_lt_succ (Nat.lt_of_lt_of_le (hshorter s hs hread) hr)
      rw [roundOutcomes_cons hmore, roundOutcomes_cons rfl]
      cases greedy
      · rfl
      · simp

/-- By induction on the pattern. -/
theorem outcomes_extend {p : Pattern} (hend : p.asksForEnd = false) (hp : p.ReadsOnly (· ≠ c))
    (r : Reading) : p.outcomes (r.extend (c :: more)) =
      (p.outcomes r).map (Reading.extend (c :: more)) := by
  have hlonger (s : Reading) : s.rest.length ≤ (s.extend (c :: more)).rest.length := by
    rw [Reading.extend, List.length_append]
    exact Nat.le_add_right _ _
  induction p generalizing r with
  | empty => rfl
  | start =>
    unfold outcomes
    by_cases h : r.consumed = 0
    · rw [if_pos h]
      exact if_pos h
    · rw [if_neg h]
      exact if_neg h
  -- to ask for the end is the one thing for which more text matters, and it is excluded
  | finish => cases hend
  | one k =>
    have hk : k.contains c = false := Bool.eq_false_iff.2 fun h => hp c h rfl
    unfold outcomes
    rw [next?_extend hk]
    cases r.next? k <;> rfl
  | seq p q ihp ihq =>
    obtain ⟨hpend, hqend⟩ := Bool.or_eq_false_iff.1 hend
    unfold outcomes
    rw [ihp hpend hp.1, List.flatMap_map, List.map_flatMap]
    exact List.flatMap_congr fun s _ => ihq hqend hp.2 s
  | alt p q ihp ihq =>
    obtain ⟨hpend, hqend⟩ := Bool.or_eq_false_iff.1 hend
    unfold outcomes
    rw [ihp hpend hp.1, ihq hqend hp.2, List.map_append]
  | opt greedy p ih =>
    unfold outcomes
    rw [ih hend hp]
    cases greedy
    · rfl
    · simp
  | group number p ih =>
    unfold outcomes
    rw [ih hend hp, List.map_map, List.map_map]
    rfl
  | plus greedy p ih =>
    unfold outcomes
    rw [ih hend hp, List.flatMap_map, List.map_flatMap]
    refine List.flatMap_congr fun s _ => ?_
    by_cases hread : s.consumed = r.consumed
    · rw [if_pos hread]
      exact if_pos hread
    · rw [if_neg hread, ← roundOutcomes_extend greedy (ih hend hp) (hlonger s) (Nat.le_refl _)]
      exact if_neg hread
  | star greedy p ih => exact roundOutcomes_extend greedy (ih hend hp) (hlonger r) (Nat.le_refl _)

/-- The match has read nothing of what the text is longer by, and neither has any of its groups. -/
theorem toMatch_extend {p : Pattern} {text : List Char} {s : Reading}
    (h : s ∈ p.outcomes (.ofText text)) :
    (s.extend (c :: more)).toMatch (text ++ c :: more) = s.toMatch text := by
  have hconsumed : s.consumed ≤ text.length := by
    obtain ⟨u, hu, -⟩ := exists_denotes_of_mem_outcomes p _ s h
    have hlength := congrArg List.length hu.rest
    rw [List.length_append] at hlength
    have : s.consumed = 0 + u.length := hu.consumed
    have : text.length = u.length + s.rest.length := hlength
    omega
  have hpart (start stop : Nat) (hstop : stop ≤ s.consumed) :
      ((text ++ c :: more).drop start).take (stop - start) = (text.drop start).take (stop - start) := by
    by_cases hstart : start ≤ text.length
    · rw [List.drop_append_of_le_length hstart, List.take_append_of_le_length]
      rw [List.length_drop]
      omega
    · rw [show stop - start = 0 by omega, List.take_zero, List.take_zero]
  have hgroups := stop_le_of_mem_outcomes h
  show Match.mk _ _ = Match.mk _ _
  rw [Match.mk.injEq]
  exact ⟨hpart 0 s.consumed (Nat.le_refl _), List.map_congr_left fun g hg =>
    congrArg (Prod.mk g.group) (hpart g.start g.stop (hgroups g hg))⟩

/-- A pattern that cannot read the character, and does not ask for the end, finds the same in front of
it as at the end. -/
theorem firstMatch?_append_cons {p : Pattern} (hend : p.asksForEnd = false)
    (hp : p.ReadsOnly (· ≠ c)) (text : List Char) :
    p.firstMatch? (text ++ c :: more) = p.firstMatch? text := by
  have houtcomes : p.outcomes (.ofText (text ++ c :: more)) =
      (p.outcomes (.ofText text)).map (Reading.extend (c :: more)) :=
    outcomes_extend hend hp (.ofText text)
  rw [firstMatch?_eq, firstMatch?_eq, houtcomes, List.head?_map, Option.map_map]
  cases hhead : (p.outcomes (.ofText text)).head? with
  | none => rfl
  | some s => exact congrArg some (toMatch_extend (List.mem_of_mem_head? hhead))

end

end GuardedGrammar.Pattern
