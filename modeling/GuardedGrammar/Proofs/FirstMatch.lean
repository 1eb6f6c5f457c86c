/-
  The first match of a pattern.

  What a pattern finds is one of its texts, and so is what its groups have read
  (`captures_of_firstMatch?`); that is all one has to know of a rule that loses.  Of a rule that wins one
  has to know which of the texts comes first.  For that a search is followed from left to right, with
  what is to come as its continuation: a greedy repetition of a character class goes as far as it can,
  and back as far as it has to (`search_star_one`).
-/
import Mathlib.Data.List.Basic
import GuardedGrammar.Pattern.Basic

namespace GuardedGrammar.Pattern

/-! ## The texts of a pattern

What a pattern may read is said by recursion on the pattern, together with the groups that are
closed on the way. Whatever the search finds is such a reading, although it need not be the only
one. -/

/-- The texts that a pattern stands for, wherever they are. -/
inductive Denotes : Pattern → List Char → Prop
  | empty : Denotes .empty []
  | start : Denotes .start []
  | finish : Denotes .finish []
  | one {k : CharClass} {c : Char} (h : k.contains c = true) : Denotes (.one k) [c]
  | seq {p q : Pattern} {u v : List Char} (hp : Denotes p u) (hq : Denotes q v) :
    Denotes (.seq p q) (u ++ v)
  | left {p q : Pattern} {u : List Char} (h : Denotes p u) : Denotes (.alt p q) u
  | right {p q : Pattern} {u : List Char} (h : Denotes q u) : Denotes (.alt p q) u
  | absent {greedy : Bool} {p : Pattern} : Denotes (.opt greedy p) []
  | present {greedy : Bool} {p : Pattern} {u : List Char} (h : Denotes p u) :
    Denotes (.opt greedy p) u
  | group {number : Nat} {p : Pattern} {u : List Char} (h : Denotes p u) :
    Denotes (.group number p) u
  | plus {greedy : Bool} {p : Pattern} {u v : List Char} (hp : Denotes p u)
    (hmore : Denotes (.star greedy p) v) : Denotes (.plus greedy p) (u ++ v)
  | none {greedy : Bool} {p : Pattern} : Denotes (.star greedy p) []
  | more {greedy : Bool} {p : Pattern} {u v : List Char} (hp : Denotes p u)
    (hmore : Denotes (.star greedy p) v) : Denotes (.star greedy p) (u ++ v)

/-- The texts that a pattern stands for, with the texts that its groups read, latest first. -/
inductive Captures : Pattern → List Char → List (Nat × List Char) → Prop
  | empty : Captures .empty [] []
  | start : Captures .start [] []
  | finish : Captures .finish [] []
  | one {k : CharClass} {c : Char} (h : k.contains c = true) : Captures (.one k) [c] []
  | seq {p q : Pattern} {u v : List Char} {gs hs : List (Nat × List Char)} (hp : Captures p u gs)
    (hq : Captures q v hs) : Captures (.seq p q) (u ++ v) (hs ++ gs)
  | left {p q : Pattern} {u : List Char} {gs : List (Nat × List Char)} (h : Captures p u gs) :
    Captures (.alt p q) u gs
  | right {p q : Pattern} {u : List Char} {gs : List (Nat × List Char)} (h : Captures q u gs) :
    Captures (.alt p q) u gs
  | absent {greedy : Bool} {p : Pattern} : Captures (.opt greedy p) [] []
  | present {greedy : Bool} {p : Pattern} {u : List Char} {gs : List (Nat × List Char)}
    (h : Captures p u gs) : Captures (.opt greedy p) u gs
  | group {number : Nat} {p : Pattern} {u : List Char} {gs : List (Nat × List Char)}
    (h : Captures p u gs) : Captures (.group number p) u ((number, u) :: gs)
  | plus {greedy : Bool} {p : Pattern} {u v : List Char} {gs hs : List (Nat × List Char)}
    (hp : Captures p u gs) (hmore : Captures (.star greedy p) v hs) :
    Captures (.plus greedy p) (u ++ v) (hs ++ gs)
  | none {greedy : Bool} {p : Pattern} : Captures (.star greedy p) [] []
  | more {greedy : Bool} {p : Pattern} {u v : List Char} {gs hs : List (Nat × List Char)}
    (hp : Captures p u gs) (hmore : Captures (.star greedy p) v hs) :
    Captures (.star greedy p) (u ++ v) (hs ++ gs)

/-- Without the groups, it is a text of the pattern. -/
theorem Captures.denotes {p : Pattern} {u : List Char} {gs : List (Nat × List Char)}
    (h : Captures p u gs) : Denotes p u := by
  induction h with
  | empty => exact .empty
  | start => exact .start
  | finish => exact .finish
  | one h => exact .one h
  | seq _ _ ihp ihq => exact .seq ihp ihq
  | left _ ih => exact .left ih
  | right _ ih => exact .right ih
  | absent => exact .absent
  | present _ ih => exact .present ih
  | group _ ih => exact .group ih
  | plus _ _ ihp ihmore => exact .plus ihp ihmore
  | none => exact .none
  | more _ _ ihp ihmore => exact .more ihp ihmore

/-- Between two readings, the text has been read. -/
structure Reads (r : Reading) (u : List Char) (s : Reading) : Prop where
  rest : r.rest = u ++ s.rest
  consumed : s.consumed = r.consumed + u.length

theorem Reads.refl (r : Reading) : Reads r [] r := ⟨rfl, rfl⟩

/-- One text is read behind the other. -/
theorem Reads.append {r s t : Reading} {u v : List Char} (h : Reads r u s) (h' : Reads s v t) :
    Reads r (u ++ v) t where
  rest := by rw [h.rest, h'.rest, List.append_assoc]
  consumed := by rw [h'.consumed, h.consumed, List.length_append, Nat.add_assoc]

/-- The part of a text between two places. -/
def part (text : List Char) (start stop : Nat) : List Char := (text.drop start).take (stop - start)

/-- A part is found again if what stands before it and how long it is are known. -/
theorem part_eq (before u behind : List Char) {text : List Char} {start stop : Nat}
    (htext : text = before ++ (u ++ behind)) (hstart : start = before.length)
    (hstop : stop = start + u.length) : part text start stop = u := by
  subst htext hstart hstop
  rw [part, List.drop_left, Nat.add_sub_cancel_left, List.take_left]

/-- A reading of a text: what has been consumed stands before what is ahead. -/
def Reading.IsOf (text : List Char) (r : Reading) : Prop :=
  ∃ before, text = before ++ r.rest ∧ r.consumed = before.length

/-- Between two readings of a text, a part of it has been read, and these groups. -/
structure Takes (text : List Char) (r : Reading) (u : List Char) (gs : List (Nat × List Char))
    (s : Reading) : Prop extends Reads r u s where
  groups : ∃ spans, s.groups = spans ++ r.groups ∧
    spans.map (fun g => (g.group, part text g.start g.stop)) = gs

section

variable {text u v : List Char} {gs hs : List (Nat × List Char)} {r s t : Reading}

theorem Takes.refl (text : List Char) (r : Reading) : Takes text r [] [] r :=
  ⟨.refl r, [], rfl, rfl⟩

/-- The groups that are closed later come first. -/
theorem Takes.append (h : Takes text r u gs s) (h' : Takes text s v hs t) :
    Takes text r (u ++ v) (hs ++ gs) t := by
  obtain ⟨spans, hspans, rfl⟩ := h.groups
  obtain ⟨spans', hspans', rfl⟩ := h'.groups
  refine ⟨h.toReads.append h'.toReads, spans' ++ spans, ?_, List.map_append⟩
  rw [hspans', hspans, List.append_assoc]

/-- A reading of a text goes on to be one, as long as what is ahead is read. -/
theorem Reading.IsOf.of_reads (hr : r.IsOf text) (h : Reads r u s) : s.IsOf text := by
  obtain ⟨before, htext, hconsumed⟩ := hr
  refine ⟨before ++ u, ?_, ?_⟩
  · rw [htext, h.rest, List.append_assoc]
  · rw [h.consumed, hconsumed, List.length_append]

/-- A group that is closed has read what has been read since it began. -/
theorem Takes.close (hr : r.IsOf text) (h : Takes text r u gs s) (number : Nat) :
    Takes text r u ((number, u) :: gs) (s.close number r.consumed) := by
  obtain ⟨before, htext, hconsumed⟩ := hr
  obtain ⟨spans, hspans, rfl⟩ := h.groups
  have hpart : part text r.consumed s.consumed = u :=
    part_eq before u s.rest (htext.trans (congrArg _ h.rest)) hconsumed h.consumed
  refine ⟨⟨h.rest, h.consumed⟩, ⟨number, r.consumed, s.consumed⟩ :: spans, ?_, ?_⟩
  · exact congrArg _ hspans
  · rw [List.map_cons, hpart]

end

/-- A repetition stops, or goes on from where a round leads. -/
theorem eq_or_exists_of_mem_roundOutcomes {greedy : Bool} {m : Reading → List Reading} {d : Char}
    {ahead : List Char} {r s : Reading} (h : s ∈ roundOutcomes greedy m (d :: ahead) r) :
    s = r ∨ ∃ t ∈ m r, s ∈ roundOutcomes greedy m ahead t := by
  have hcases : s = r ∨ s ∈ (m r).flatMap fun t =>
      if t.consumed = r.consumed then [] else roundOutcomes greedy m ahead t := by
    unfold roundOutcomes at h
    dsimp only at h
    split at h
    · rcases List.mem_append.1 h with h | h
      · exact .inr h
      · exact .inl (List.mem_singleton.1 h)
    · exact List.mem_cons.1 h
  -- greedy or not, these are the outcomes, in one order or the other
  rcases hcases with rfl | h
  · exact .inl rfl
  · obtain ⟨t, ht, h⟩ := List.mem_flatMap.1 h
    split at h
    · cases h
    · exact .inr ⟨t, ht, h⟩

/-- What is optional is left out, or it matches. -/
theorem eq_or_mem_of_mem_opt {greedy : Bool} {p : Pattern} {r s : Reading}
    (h : s ∈ (Pattern.opt greedy p).outcomes r) : s = r ∨ s ∈ p.outcomes r := by
  unfold outcomes at h
  split at h
  · rcases List.mem_append.1 h with h | h
    · exact .inr h
    · exact .inl (List.mem_singleton.1 h)
  · exact List.mem_cons.1 h

/-- By induction on the text ahead, which bounds the number of rounds: each round reads a text of
the pattern, and the others read what is behind it. -/
theorem exists_captures_of_mem_roundOutcomes {text : List Char} {greedy : Bool} {p : Pattern}
    (hp : ∀ r s, r.IsOf text → s ∈ p.outcomes r → ∃ u gs, Takes text r u gs s ∧ Captures p u gs)
    (ahead : List Char) {r s : Reading} (hr : r.IsOf text)
    (h : s ∈ roundOutcomes greedy p.outcomes ahead r) :
    ∃ u gs, Takes text r u gs s ∧ Captures (.star greedy p) u gs := by
  induction ahead generalizing r with
  | nil =>
    obtain rfl := List.mem_singleton.1 h
    exact ⟨[], [], .refl _ s, .none⟩
  | cons _ ahead ih =>
    rcases eq_or_exists_of_mem_roundOutcomes h with rfl | ⟨t, ht, h⟩
    · exact ⟨[], [], .refl _ s, .none⟩
    · obtain ⟨u, gs, hu, hpu⟩ := hp r t hr ht
      obtain ⟨v, hs, hv, hmore⟩ := ih (hr.of_reads hu.toReads) h
      exact ⟨u ++ v, hs ++ gs, hu.append hv, .more hpu hmore⟩

/-- Every way to match reads a text of the pattern. -/
theorem exists_captures_of_mem_outcomes {text : List Char} (p : Pattern) (r s : Reading)
    (hr : r.IsOf text) (h : s ∈ p.outcomes r) :
    ∃ u gs, Takes text r u gs s ∧ Captures p u gs := by
  -- each kind of pattern makes its outcomes from those of its parts
  induction p generalizing r s with
  | empty =>
    obtain rfl := List.mem_singleton.1 h
    exact ⟨[], [], .refl _ s, .empty⟩
  | start =>
    unfold outcomes at h
    split at h
    · obtain rfl := List.mem_singleton.1 h
      exact ⟨[], [], .refl _ s, .start⟩
    · cases h
  | finish =>
    unfold outcomes at h
    split at h
    · obtain rfl := List.mem_singleton.1 h
      exact ⟨[], [], .refl _ s, .finish⟩
    · cases h
  | one k =>
    have hnext : r.next? k = some s := Option.mem_toList.1 h
    obtain ⟨n, rest, groups⟩ := r
    unfold Reading.next? at hnext
    cases rest with
    | nil => cases hnext
    | cons c rest =>
      dsimp only at hnext
      split at hnext
      · rename_i hc
        cases hnext
        exact ⟨[c], [], ⟨⟨rfl, rfl⟩, [], rfl, rfl⟩, .one hc⟩
      · cases hnext
  | seq p q ihp ihq =>
    obtain ⟨t, ht, h⟩ := List.mem_flatMap.1 h
    obtain ⟨u, gs, hu, hpu⟩ := ihp r t hr ht
    obtain ⟨v, hs, hv, hqv⟩ := ihq t s (hr.of_reads hu.toReads) h
    exact ⟨u ++ v, hs ++ gs, hu.append hv, .seq hpu hqv⟩
  | alt p q ihp ihq =>
    rcases List.mem_append.1 h with h | h
    · obtain ⟨u, gs, hu, hpu⟩ := ihp r s hr h
      exact ⟨u, gs, hu, .left hpu⟩
    · obtain ⟨u, gs, hu, hqu⟩ := ihq r s hr h
      exact ⟨u, gs, hu, .right hqu⟩
  | opt greedy p ih =>
    rcases eq_or_mem_of_mem_opt h with rfl | h
    · exact ⟨[], [], .refl _ s, .absent⟩
    · obtain ⟨u, gs, hu, hpu⟩ := ih r s hr h
      exact ⟨u, gs, hu, .present hpu⟩
  -- a group is closed behind all that has been read since it began
  | group number p ih =>
    obtain ⟨t, ht, rfl⟩ := List.mem_map.1 h
    obtain ⟨u, gs, hu, hpu⟩ := ih r t hr ht
    exact ⟨u, (number, u) :: gs, hu.close hr number, .group hpu⟩
  -- the first round must be there, the others are those of a repetition
  | plus greedy p ih =>
    obtain ⟨t, ht, h⟩ := List.mem_flatMap.1 h
    obtain ⟨u, gs, hu, hpu⟩ := ih r t hr ht
    split at h
    · obtain rfl := List.mem_singleton.1 h
      exact ⟨u ++ [], [] ++ gs, hu.append (.refl _ s), .plus hpu .none⟩
    · obtain ⟨v, hs, hv, hmore⟩ :=
        exists_captures_of_mem_roundOutcomes ih _ (hr.of_reads hu.toReads) h
      exact ⟨u ++ v, hs ++ gs, hu.append hv, .plus hpu hmore⟩
  | star greedy p ih => exact exists_captures_of_mem_roundOutcomes ih _ hr h

/-- Without regard to groups, every way to match reads a text of the pattern. -/
theorem exists_denotes_of_mem_outcomes (p : Pattern) (r s : Reading) (h : s ∈ p.outcomes r) :
    ∃ u, Reads r u s ∧ Denotes p u := by
  -- any text will do that has the place of the reading
  have hr : r.IsOf (List.replicate r.consumed ' ' ++ r.rest) :=
    ⟨_, rfl, List.length_replicate.symm⟩
  obtain ⟨u, gs, hu, hpu⟩ := exists_captures_of_mem_outcomes p r s hr h
  exact ⟨u, hu.toReads, hpu.denotes⟩

/-- What a pattern finds is a text of the pattern, and so is what its groups have read. -/
theorem captures_of_firstMatch? {p : Pattern} {text : List Char} {m : Match}
    (h : p.firstMatch? text = some m) : Captures p m.text m.groups := by
  rw [firstMatch?_eq] at h
  obtain ⟨s, hs, rfl⟩ := Option.map_eq_some_iff.1 h
  -- the search begins at the front of the text, where no group has been closed
  have hr : (Reading.ofText text).IsOf text := ⟨[], rfl, rfl⟩
  obtain ⟨u, gs, hu, hpu⟩ :=
    exists_captures_of_mem_outcomes p _ _ hr (List.mem_of_mem_head? hs)
  have htext : part text 0 s.consumed = u :=
    part_eq [] u s.rest hu.rest rfl hu.consumed
  obtain ⟨spans, hspans, hgroups⟩ := hu.groups
  have hall : s.groups = spans := hspans.trans (List.append_nil spans)
  show Captures p (part text 0 s.consumed)
    (s.groups.map fun g => (g.group, part text g.start g.stop))
  rw [htext, hall, hgroups]
  exact hpu

/-- What a pattern finds is a text of the pattern. -/
theorem denotes_of_firstMatch? {p : Pattern} {text : List Char} {m : Match}
    (h : p.firstMatch? text = some m) : Denotes p m.text :=
  (captures_of_firstMatch? h).denotes

/-- Whether a pattern has no groups. -/
def isGroupless : Pattern → Bool
  | .empty => true
  | .start => true
  | .finish => true
  | .one _ => true
  | .seq p q => p.isGroupless && q.isGroupless
  | .alt p q => p.isGroupless && q.isGroupless
  | .opt _ p => p.isGroupless
  | .group _ _ => false
  | .plus _ p => p.isGroupless
  | .star _ p => p.isGroupless

/-- Without groups, no group has read anything. -/
theorem Captures.eq_nil {p : Pattern} {u : List Char} {gs : List (Nat × List Char)}
    (h : Captures p u gs) (hp : p.isGroupless = true) : gs = [] := by
  induction h with
  | empty | start | finish | one | absent | none => rfl
  | seq _ _ ihp ihq =>
    obtain ⟨hp, hq⟩ := Bool.and_eq_true_iff.1 hp
    rw [ihp hp, ihq hq]
    rfl
  | left _ ih => exact ih (Bool.and_eq_true_iff.1 hp).1
  | right _ ih => exact ih (Bool.and_eq_true_iff.1 hp).2
  | present _ ih => exact ih hp
  | group => exact nomatch hp
  | plus _ _ ihp ihmore =>
    rw [ihp hp, ihmore hp]
    rfl
  | more _ _ ihp ihmore =>
    rw [ihp hp, ihmore hp]
    rfl

/-- A group around a pattern without groups reads what the pattern reads. -/
theorem Captures.of_group {number : Nat} {p : Pattern} {u : List Char}
    {gs : List (Nat × List Char)} (h : Captures (.group number p) u gs)
    (hp : p.isGroupless = true) : gs = [(number, u)] ∧ Denotes p u := by
  cases h with
  | group h =>
    rw [h.eq_nil hp]
    exact ⟨rfl, h.denotes⟩

/-- All characters that a pattern can read have a property. -/
def ReadsOnly (P : Char → Prop) : Pattern → Prop
  | .empty => True
  | .start => True
  | .finish => True
  | .one k => ∀ c, k.contains c = true → P c
  | .seq p q => ReadsOnly P p ∧ ReadsOnly P q
  | .alt p q => ReadsOnly P p ∧ ReadsOnly P q
  | .opt _ p => ReadsOnly P p
  | .group _ p => ReadsOnly P p
  | .plus _ p => ReadsOnly P p
  | .star _ p => ReadsOnly P p

/-- A property that follows from another holds as well. -/
theorem ReadsOnly.imp {P Q : Char → Prop} {p : Pattern} (h : p.ReadsOnly P)
    (hPQ : ∀ c, P c → Q c) : p.ReadsOnly Q := by
  induction p with
  | empty => trivial
  | start => trivial
  | finish => trivial
  | one k => exact fun c hc => hPQ c (h c hc)
  | seq p q ihp ihq => exact ⟨ihp h.1, ihq h.2⟩
  | alt p q ihp ihq => exact ⟨ihp h.1, ihq h.2⟩
  | opt _ p ih => exact ih h
  | group _ p ih => exact ih h
  | plus _ p ih => exact ih h
  | star _ p ih => exact ih h

/-- All characters of a text of the pattern have the property. -/
theorem Denotes.forall_of_readsOnly {P : Char → Prop} {p : Pattern} {u : List Char}
    (h : Denotes p u) (hp : ReadsOnly P p) : ∀ c ∈ u, P c := by
  induction h with
  | one hc => exact List.forall_mem_singleton.2 (hp _ hc)
  | seq _ _ ihp ihq => exact List.forall_mem_append.2 ⟨ihp hp.1, ihq hp.2⟩
  | left _ ih => exact ih hp.1
  | right _ ih => exact ih hp.2
  | present _ ih => exact ih hp
  | group _ ih => exact ih hp
  | plus _ _ ihp ihmore => exact List.forall_mem_append.2 ⟨ihp hp, ihmore hp⟩
  | more _ _ ihp ihmore => exact List.forall_mem_append.2 ⟨ihp hp, ihmore hp⟩
  | _ => exact fun _ hc => nomatch hc

section

variable {P : Char → Prop} {p : Pattern}

theorem readsOnly_char {c : Char} (hc : P c) : ReadsOnly P (char c) := by
  intro d hd
  rw [(CharClass.contains_only c d).1 hd]
  exact hc

/-- A row of patterns reads what its members read. -/
theorem readsOnly_concat {ps : List Pattern} (h : ∀ p ∈ ps, ReadsOnly P p) :
    ReadsOnly P (concat ps) := by
  induction ps with
  | nil => trivial
  | cons p ps ih =>
    obtain ⟨hp, hps⟩ := List.forall_mem_cons.1 h
    cases ps with
    | nil => exact hp
    | cons q ps => exact ⟨hp, ih hps⟩

theorem readsOnly_word {w : List Char} (h : ∀ c ∈ w, P c) : ReadsOnly P (word w) := by
  refine readsOnly_concat fun p hp => ?_
  obtain ⟨c, hc, rfl⟩ := List.mem_map.1 hp
  exact readsOnly_char (h c hc)

/-- A repetition reads what is repeated, however often. -/
theorem readsOnly_upTo (hp : ReadsOnly P p) (greedy : Bool) (n : Nat) :
    ReadsOnly P (upTo greedy p n) := by
  induction n with
  | zero => trivial
  | succ n ih =>
    show ReadsOnly P (if n = 0 then p else .seq p (upTo greedy p n))
    split
    · exact hp
    · exact ⟨hp, ih⟩

/-- So does a repetition with a least number of rounds. -/
theorem readsOnly_between (hp : ReadsOnly P p) (greedy : Bool) (least most : Nat) :
    ReadsOnly P (between greedy p least (some most)) := by
  refine ⟨readsOnly_concat fun q hq => ?_, readsOnly_upTo hp greedy _⟩
  rw [List.eq_of_mem_replicate hq]
  exact hp

end

/-- A pattern that begins with a character of a class. -/
inductive OpensWith (k : CharClass) : Pattern → Prop
  | one : OpensWith k (.one k)
  | seq {q : Pattern} : OpensWith k (.seq (.one k) q)

/-- A match of a pattern that begins with a class has a character of the class in front. -/
theorem contains_of_opensWith {k : CharClass} {p : Pattern} (hp : OpensWith k p)
    {text : List Char} {m : Match} (h : p.firstMatch? text = some m) :
    ∃ c ∈ text.head?, k.contains c = true := by
  have hfirst (c : Char) (u : List Char) (hc : k.contains c = true) (hm : m.text = c :: u) :
      ∃ c ∈ text.head?, k.contains c = true := by
    obtain ⟨rest, rfl⟩ := isPrefix_of_firstMatch? h
    exact ⟨c, by rw [hm]; rfl, hc⟩
  have hdenotes := denotes_of_firstMatch? h
  generalize hu : m.text = u at hdenotes
  cases hp with
  | one =>
    cases hdenotes with
    | one hc => exact hfirst _ _ hc hu
  | seq =>
    cases hdenotes with
    | seq hone =>
      cases hone with
      | one hc => exact hfirst _ _ hc hu

/-- A word stands for itself only. -/
theorem denotes_word {w u : List Char} (h : Denotes (word w) u) : u = w := by
  induction w generalizing u with
  | nil =>
    cases h
    rfl
  | cons c w ih =>
    have hchar {v : List Char} (hv : Denotes (char c) v) : v = [c] := by
      cases hv with
      | one hd => rw [(CharClass.contains_only _ _).1 hd]
    -- the last character of a word stands for itself, without a row behind it
    cases w with
    | nil => exact hchar h
    | cons d w =>
      cases (h : Denotes (.seq (char c) (word (d :: w))) u) with
      | seq hc hw => rw [hchar hc, ih hw]; rfl

/-- Up to so many characters are so many at most. -/
theorem length_le_of_denotes_upTo {k : CharClass} {greedy : Bool} {n : Nat} {u : List Char}
    (h : Denotes (upTo greedy (.one k) n) u) : u.length ≤ n := by
  induction n generalizing u with
  | zero =>
    cases h
    exact Nat.le_refl 0
  | succ n ih =>
    cases (h : Denotes (.opt greedy (if n = 0 then .one k
      else .seq (.one k) (upTo greedy (.one k) n))) u) with
    | absent => exact Nat.zero_le _
    | present h =>
      split at h
      · cases h
        exact Nat.le_add_left 1 n
      · cases h with
        | seq hone hmore =>
          cases hone
          exact Nat.succ_le_succ (ih hmore)

/-- So they are with a least number. -/
theorem length_le_of_denotes_between {k : CharClass} {greedy : Bool} {n : Nat} {u : List Char}
    (h : Denotes (between greedy (.one k) 1 (some (n + 1))) u) : u.length ≤ n + 1 := by
  cases (h : Denotes (.seq (.one k) (upTo greedy (.one k) n)) u) with
  | seq hone hmore =>
    cases hone
    exact Nat.succ_le_succ (length_le_of_denotes_upTo hmore)

/-! ## Following a search -/

section

variable {β : Type} {k : CharClass} {cont : Reading → Option β} {n : Nat} {gs : List Span}
  {u v rest : List Char} {out : β}

/-! How a search goes, pattern by pattern. What follows a pattern is searched for behind what the
pattern has read, and a group is closed there. A character is read if it is ahead and belongs to the
class. Of two alternatives the first is tried first, and so is what is optional, before it is left
out. -/

theorem search_seq (p q : Pattern) (r : Reading) :
    search (.seq p q) r cont = search p r fun s => search q s cont := rfl

theorem search_group (number : Nat) (p : Pattern) (r : Reading) :
    search (.group number p) r cont = search p r fun s => cont (s.close number r.consumed) := rfl

theorem search_one_of_contains {c : Char} (hc : k.contains c = true) :
    search (.one k) ⟨n, c :: rest, gs⟩ cont = cont ⟨n + 1, rest, gs⟩ := by
  simp [search, Reading.next?, hc]

theorem search_one_eq_none (h : ∀ c ∈ rest.head?, k.contains c = false) :
    search (.one k) ⟨n, rest, gs⟩ cont = none := by
  cases rest with
  | nil => rfl
  | cons c rest => simp [search, Reading.next?, h c rfl]

theorem search_char (c : Char) :
    search (char c) ⟨n, c :: rest, gs⟩ cont = cont ⟨n + 1, rest, gs⟩ :=
  search_one_of_contains ((CharClass.contains_only c c).2 rfl)

theorem search_char_eq_none {c : Char} (h : rest.head? ≠ some c) :
    search (char c) ⟨n, rest, gs⟩ cont = none := by
  refine search_one_eq_none fun d hd => Bool.eq_false_iff.2 fun hc => h ?_
  rw [← (CharClass.contains_only c d).1 hc]
  exact hd

theorem search_alt (p q : Pattern) (r : Reading) :
    search (.alt p q) r cont = (search p r cont).or (search q r cont) := by
  rw [search]
  cases search p r cont <;> rfl

theorem search_opt (p : Pattern) (r : Reading) :
    search (.opt true p) r cont = (search p r cont).or (cont r) := by
  rw [search, if_pos rfl]
  cases search p r cont <;> rfl

/-- The place behind a text that is read one character first. -/
theorem add_length_cons (n : Nat) (c : Char) (u : List Char) :
    n + 1 + u.length = n + (c :: u).length := by
  rw [List.length_cons]
  omega

/-- A greedy repetition tries to go on before it stops. -/
theorem search_star_one_cons {c : Char} (hc : k.contains c = true) :
    search (.star true (.one k)) ⟨n, c :: rest, gs⟩ cont =
      (search (.star true (.one k)) ⟨n + 1, rest, gs⟩ cont).or (cont ⟨n, c :: rest, gs⟩) := by
  have hmore : search (.one k) ⟨n, c :: rest, gs⟩ (fun s => if s.consumed = n then none
      else rounds true (search (.one k)) rest s cont) =
        search (.star true (.one k)) ⟨n + 1, rest, gs⟩ cont := by
    rw [search_one_of_contains hc, if_neg (Nat.succ_ne_self n)]
    rfl
  rw [search, rounds, if_pos rfl, hmore]
  cases search (.star true (.one k)) ⟨n + 1, rest, gs⟩ cont <;> rfl

/-! A repetition of a class stops where no character of the class is ahead; one that takes one at
least fails there, and goes on like any other behind its first character. -/

theorem search_star_one_stop (h : ∀ c ∈ rest.head?, k.contains c = false) :
    search (.star true (.one k)) ⟨n, rest, gs⟩ cont = cont ⟨n, rest, gs⟩ := by
  cases rest with
  | nil => rfl
  | cons c rest => rw [search, rounds, if_pos rfl, search_one_eq_none h]

theorem search_plus_one_cons {c : Char} (hc : k.contains c = true) :
    search (.plus true (.one k)) ⟨n, c :: rest, gs⟩ cont =
      search (.star true (.one k)) ⟨n + 1, rest, gs⟩ cont := by
  rw [search, search_one_of_contains hc, if_neg (Nat.succ_ne_self n)]
  rfl

theorem search_plus_one_eq_none (h : ∀ c ∈ rest.head?, k.contains c = false) :
    search (.plus true (.one k)) ⟨n, rest, gs⟩ cont = none := by
  rw [search, search_one_eq_none h]

/-- If what follows fails wherever a repetition stops, then all fails. -/
theorem search_star_one_eq_none (hu : ∀ c ∈ u, k.contains c = true)
    (hstop : ∀ c ∈ rest.head?, k.contains c = false)
    (hfails : ∀ a b, u = a ++ b → cont ⟨n + a.length, b ++ rest, gs⟩ = none) :
    search (.star true (.one k)) ⟨n, u ++ rest, gs⟩ cont = none := by
  induction u generalizing n with
  | nil => rw [List.nil_append, search_star_one_stop hstop, ← hfails [] [] rfl]; rfl
  | cons c u ih =>
    have hmore : search (.star true (.one k)) ⟨n + 1, u ++ rest, gs⟩ cont = none := by
      refine ih (fun d hd => hu d (List.mem_cons_of_mem c hd)) fun a b hab => ?_
      rw [← hfails (c :: a) b (congrArg (c :: ·) hab), add_length_cons n c a]
    rw [List.cons_append, search_star_one_cons (hu c List.mem_cons_self), hmore, Option.none_or]
    exact hfails [] (c :: u) rfl

/-- A greedy repetition of a class of characters takes the longest part of the run ahead of it behind
which what follows succeeds. -/
theorem search_star_one (hu : ∀ c ∈ u, k.contains c = true) (hv : ∀ c ∈ v, k.contains c = true)
    (hstop : ∀ c ∈ rest.head?, k.contains c = false)
    (hfails : ∀ a b, v = a ++ b → a ≠ [] →
      cont ⟨n + u.length + a.length, b ++ rest, gs⟩ = none)
    (hcont : cont ⟨n + u.length, v ++ rest, gs⟩ = some out) :
    search (.star true (.one k)) ⟨n, u ++ (v ++ rest), gs⟩ cont = some out := by
  induction u generalizing n with
  -- nothing more is to be taken, so going on must fail, and then the repetition stops
  | nil =>
    cases v with
    | nil => rwa [List.nil_append, List.nil_append, search_star_one_stop hstop]
    | cons c v =>
      have hmore : search (.star true (.one k)) ⟨n + 1, v ++ rest, gs⟩ cont = none := by
        refine search_star_one_eq_none (fun d hd => hv d (List.mem_cons_of_mem c hd)) hstop
          fun a b hab => ?_
        rw [← hfails (c :: a) b (congrArg (c :: ·) hab) (List.cons_ne_nil _ _),
          add_length_cons n c a]
        rfl
      rw [List.nil_append, List.cons_append, search_star_one_cons (hv c List.mem_cons_self), hmore,
        Option.none_or]
      exact hcont
  | cons c u ih =>
    have hmore : search (.star true (.one k)) ⟨n + 1, u ++ (v ++ rest), gs⟩ cont = some out := by
      have hplace := add_length_cons n c u
      refine ih (fun d hd => hu d (List.mem_cons_of_mem c hd)) (fun a b hab ha => ?_) ?_
      · rw [hplace]
        exact hfails a b hab ha
      · rw [hplace]
        exact hcont
    rw [List.cons_append, search_star_one_cons (hu c List.mem_cons_self), hmore, Option.some_or]

/-- The same for a repetition that takes one character at least. -/
theorem search_plus_one (hne : u ≠ []) (hu : ∀ c ∈ u, k.contains c = true)
    (hv : ∀ c ∈ v, k.contains c = true) (hstop : ∀ c ∈ rest.head?, k.contains c = false)
    (hfails : ∀ a b, v = a ++ b → a ≠ [] →
      cont ⟨n + u.length + a.length, b ++ rest, gs⟩ = none)
    (hcont : cont ⟨n + u.length, v ++ rest, gs⟩ = some out) :
    search (.plus true (.one k)) ⟨n, u ++ (v ++ rest), gs⟩ cont = some out := by
  obtain ⟨c, u, rfl⟩ := List.exists_cons_of_ne_nil hne
  have hplace := add_length_cons n c u
  rw [List.cons_append, search_plus_one_cons (hu c List.mem_cons_self)]
  refine search_star_one (fun d hd => hu d (List.mem_cons_of_mem c hd)) hv hstop
    (fun a b hab ha => ?_) ?_
  · rw [hplace]
    exact hfails a b hab ha
  · rw [hplace]
    exact hcont

/-- If what follows succeeds behind the whole run, that is how far a greedy repetition goes. -/
theorem search_star_one_run (hu : ∀ c ∈ u, k.contains c = true)
    (hstop : ∀ c ∈ rest.head?, k.contains c = false)
    (hcont : cont ⟨n + u.length, rest, gs⟩ = some out) :
    search (.star true (.one k)) ⟨n, u ++ rest, gs⟩ cont = some out := by
  refine search_star_one (v := []) hu (fun _ h => nomatch h) hstop (fun a b hab ha => ?_) hcont
  exact absurd (List.append_eq_nil_iff.1 hab.symm).1 ha

/-- So does a repetition that takes one character at least. -/
theorem search_plus_one_run (hne : u ≠ []) (hu : ∀ c ∈ u, k.contains c = true)
    (hstop : ∀ c ∈ rest.head?, k.contains c = false)
    (hcont : cont ⟨n + u.length, rest, gs⟩ = some out) :
    search (.plus true (.one k)) ⟨n, u ++ rest, gs⟩ cont = some out := by
  refine search_plus_one (v := []) hne hu (fun _ h => nomatch h) hstop (fun a b hab ha => ?_) hcont
  exact absurd (List.append_eq_nil_iff.1 hab.symm).1 ha

/-- Up to the given number of characters, all that are there. If there are as many as that, it does not
matter what follows. -/
theorem search_upTo_one {m : Nat} (hlength : u.length ≤ m) (hu : ∀ c ∈ u, k.contains c = true)
    (hstop : u.length < m → ∀ c ∈ rest.head?, k.contains c = false)
    (hcont : cont ⟨n + u.length, rest, gs⟩ = some out) :
    search (upTo true (.one k) m) ⟨n, u ++ rest, gs⟩ cont = some out := by
  induction m generalizing n u with
  | zero =>
    obtain rfl := List.eq_nil_of_length_eq_zero (Nat.le_zero.1 hlength)
    exact hcont
  | succ m ih =>
    rw [upTo, search_opt]
    cases u with
    -- the run has ended, so the repetition is left out
    | nil =>
      have hnone (q : Reading → Option β) : search (.one k) ⟨n, [] ++ rest, gs⟩ q = none :=
        search_one_eq_none (hstop (Nat.succ_pos m))
      split
      · rw [hnone, Option.none_or]
        exact hcont
      · rw [search_seq, hnone, Option.none_or]
        exact hcont
    | cons c u =>
      have hc := hu c List.mem_cons_self
      have hplace := add_length_cons n c u
      have hlast : search (upTo true (.one k) m) ⟨n + 1, u ++ rest, gs⟩ cont = some out := by
        refine ih (Nat.le_of_succ_le_succ hlength) (fun d hd => hu d (List.mem_cons_of_mem c hd))
          (fun hlt => hstop (Nat.succ_lt_succ hlt)) ?_
        rw [hplace]
        exact hcont
      split
      · -- for the last round the pattern has nothing behind it
        rename_i hm
        subst hm
        rw [List.cons_append, search_one_of_contains hc]
        rw [show cont ⟨n + 1, u ++ rest, gs⟩ = some out from hlast, Option.some_or]
      · rw [search_seq, List.cons_append, search_one_of_contains hc, hlast, Option.some_or]

/-- From one to the given number of characters, all that are there. -/
theorem search_between_one {m : Nat} (hne : u ≠ []) (hlength : u.length ≤ m)
    (hu : ∀ c ∈ u, k.contains c = true)
    (hstop : u.length < m → ∀ c ∈ rest.head?, k.contains c = false)
    (hcont : cont ⟨n + u.length, rest, gs⟩ = some out) :
    search (between true (.one k) 1 (some m)) ⟨n, u ++ rest, gs⟩ cont = some out := by
  obtain ⟨c, u, rfl⟩ := List.exists_cons_of_ne_nil hne
  have hplace := add_length_cons n c u
  show search (.seq (.one k) (upTo true (.one k) (m - 1))) _ cont = _
  rw [search_seq, List.cons_append, search_one_of_contains (hu c List.mem_cons_self)]
  refine search_upTo_one (Nat.le_sub_one_of_lt hlength)
    (fun d hd => hu d (List.mem_cons_of_mem c hd))
    (fun hlt => hstop (Nat.add_lt_of_lt_sub hlt)) ?_
  rw [hplace]
  exact hcont

/-- A word is found where it stands. -/
theorem search_word (w : List Char) :
    search (word w) ⟨n, w ++ rest, gs⟩ cont = cont ⟨n + w.length, rest, gs⟩ := by
  induction w generalizing n with
  | nil => rfl
  | cons c w ih =>
    have hplace := add_length_cons n c w
    cases w with
    | nil => exact search_char c
    | cons d w =>
      show search (.seq (char c) (word (d :: w))) _ cont = _
      rw [search_seq, List.cons_append, search_char, ih, hplace]

end

/-! ## Matches -/

/-- What the search ends with is the match, its text being all that has been read. -/
theorem firstMatch?_of_search {p : Pattern} {text : List Char} {s : Reading}
    (h : search p ⟨0, text, []⟩ some = some s) :
    p.firstMatch? text = some ⟨part text 0 s.consumed,
      s.groups.map fun g => (g.group, part text g.start g.stop)⟩ := by
  rw [firstMatch?, Reading.ofText, h]
  rfl

/-- A word is found where it stands, and no more than it. -/
theorem firstMatch?_word (w rest : List Char) :
    (word w).firstMatch? (w ++ rest) = some ⟨w, []⟩ := by
  have hsearch : search (word w) ⟨0, w ++ rest, []⟩ some = some ⟨0 + w.length, rest, []⟩ :=
    search_word w
  have hwhole : part (w ++ rest) 0 (0 + w.length) = w := part_eq [] w rest rfl rfl rfl
  rw [firstMatch?_of_search hsearch, hwhole]
  rfl

/-- A character of the class is found, and no more than it. -/
theorem firstMatch?_one {k : CharClass} {c : Char} (hc : k.contains c = true) (rest : List Char) :
    (one k).firstMatch? (c :: rest) = some ⟨[c], []⟩ :=
  firstMatch?_of_search (search_one_of_contains hc)

/-- At the first character, a class finds it or finds nothing. -/
theorem firstMatch?_one_cons (k : CharClass) (c : Char) (rest : List Char) :
    (one k).firstMatch? (c :: rest) = if k.contains c then some ⟨[c], []⟩ else none := by
  by_cases hc : k.contains c = true
  · rw [firstMatch?_one hc, if_pos hc]
  · have hsearch : search (one k) ⟨0, c :: rest, []⟩ some = none :=
      search_one_eq_none fun d hd => Option.some.inj hd ▸ Bool.eq_false_iff.2 hc
    rw [firstMatch?, Reading.ofText, hsearch, if_neg hc]
    rfl

/-- For one character, only the first of the text counts. -/
theorem firstMatch?_one_append (k : CharClass) {text : List Char} (htext : text ≠ [])
    (more : List Char) : (one k).firstMatch? (text ++ more) = (one k).firstMatch? text := by
  obtain ⟨c, rest, rfl⟩ := List.exists_cons_of_ne_nil htext
  rw [List.cons_append, firstMatch?_one_cons, firstMatch?_one_cons]

/-- A text without closing marks stands between an opening and a closing mark. -/
theorem firstMatch?_between_marks (opening : Char) {closing : Char} {k : CharClass} {u : List Char}
    (hu : ∀ c ∈ u, k.contains c = true) (hclosing : k.contains closing = false)
    (rest : List Char) :
    (concat [.char opening, .group 1 (.star true (.one k)), .char closing]).firstMatch?
        (opening :: (u ++ closing :: rest)) =
      some ⟨opening :: (u ++ [closing]), [(1, u)]⟩ := by
  have hsearch : search (concat [.char opening, .group 1 (.star true (.one k)), .char closing])
      ⟨0, opening :: (u ++ closing :: rest), []⟩ some =
        some ⟨0 + 1 + u.length + 1, rest, [⟨1, 0 + 1, 0 + 1 + u.length⟩]⟩ := by
    show search (.seq (.char opening) (.seq (.group 1 (.star true (.one k))) (.char closing))) _ _ = _
    rw [search_seq, search_char, search_seq, search_group]
    -- the run ends at the closing mark, which is not of the class
    refine search_star_one_run hu (fun c hc => ?_) (search_char closing)
    rw [← Option.some.inj hc]
    exact hclosing
  have hwhole : part (opening :: (u ++ closing :: rest)) 0 (0 + 1 + u.length + 1) =
      opening :: (u ++ [closing]) := by
    refine part_eq [] _ rest ?_ rfl ?_
    · simp
    · simp
      omega
  have hgroup : part (opening :: (u ++ closing :: rest)) (0 + 1) (0 + 1 + u.length) = u :=
    part_eq [opening] u (closing :: rest) rfl rfl rfl
  rw [firstMatch?_of_search hsearch, hwhole]
  show some (Match.mk _ [(1, part _ (0 + 1) (0 + 1 + u.length))]) = _
  rw [hgroup]

/-- What is found between marks consists of characters of the class. -/
theorem exists_of_firstMatch?_between_marks {opening closing : Char} {k : CharClass}
    {text : List Char} {m : Match}
    (h : (concat [.char opening, .group 1 (.star true (.one k)), .char closing]).firstMatch? text =
      some m) : ∃ u rest, (∀ c ∈ u, k.contains c = true) ∧ text = opening :: (u ++ closing :: rest) ∧
        m = ⟨opening :: (u ++ [closing]), [(1, u)]⟩ := by
  obtain ⟨rest, hrest⟩ := isPrefix_of_firstMatch? h
  have hcaptures : Captures (.seq (.char opening) (.seq (.group 1 (.star true (.one k)))
    (.char closing))) m.text m.groups := captures_of_firstMatch? h
  obtain ⟨read, gs⟩ := m
  cases hcaptures with
  | seq hopening hbehind =>
    cases hbehind with
    | @seq _ _ u _ _ _ hgroup hclosing =>
      obtain ⟨rfl, hbetween⟩ := hgroup.of_group rfl
      have hreads : (star true (one k)).ReadsOnly fun c => k.contains c = true := fun _ hc => hc
      rw [denotes_word (w := [opening]) hopening.denotes,
        denotes_word (w := [closing]) hclosing.denotes] at hrest ⊢
      rw [hopening.eq_nil rfl, hclosing.eq_nil rfl]
      refine ⟨u, rest, hbetween.forall_of_readsOnly hreads, ?_, rfl⟩
      simpa using hrest.symm

end GuardedGrammar.Pattern
