/-
  Patterns of text and the ways in which they match.

  A pattern is matched at a place of a text, and of all the ways to match the FIRST counts, not the
  longest: alternatives are tried in the order in which they are written, a greedy repetition tries
  one more round before it stops, and a reluctant one tries to stop first.  A round of a repetition
  that reads nothing is not followed by another, so matching ends.

  `search` hands every way to match on to a continuation and stops at the first that the continuation
  takes.  `outcomes` lists all the ways to match in the same order; it is what one reasons with.  Main
  statement: `search_eq_findSome?`, searching is going through the list.
-/
import GuardedGrammar.Pattern.CharClass

namespace GuardedGrammar

/-! ## Patterns -/

/-- A pattern of text. -/
inductive Pattern where
  /-- The empty text. -/
  | empty
  /-- The empty text, at the start of the whole text only. -/
  | start
  /-- The empty text, at the end of the whole text only. -/
  | finish
  /-- One character of a class. -/
  | one (k : CharClass)
  /-- A text of the first pattern, then a text of the second. -/
  | seq (p q : Pattern)
  /-- A text of either pattern; the first is tried first. -/
  | alt (p q : Pattern)
  /-- A text of the pattern or the empty text; a greedy one tries the pattern first. -/
  | opt (greedy : Bool) (p : Pattern)
  /-- A text of the pattern, remembered as the group of that number. -/
  | group (number : Nat) (p : Pattern)
  /-- One or more texts of the pattern, as many as possible or as few as possible. -/
  | plus (greedy : Bool) (p : Pattern)
  /-- Any number of texts of the pattern, as many as possible or as few as possible. -/
  | star (greedy : Bool) (p : Pattern)
deriving DecidableEq, Repr

namespace Pattern

/-- The character itself. -/
def char (c : Char) : Pattern := .one (.only c)

/-- Whether a text of the pattern can be empty. -/
def canBeEmpty : Pattern → Bool
  | .empty => true
  | .start => true
  | .finish => true
  | .one _ => false
  | .seq p q => p.canBeEmpty && q.canBeEmpty
  | .alt p q => p.canBeEmpty || q.canBeEmpty
  | .opt _ _ => true
  | .group _ p => p.canBeEmpty
  | .plus _ p => p.canBeEmpty
  | .star _ _ => true

/-- Any number of texts of the pattern. If these can be empty, the first of them is apart from the
others: an empty first text counts, an empty later one does not. -/
def anyNumber (greedy : Bool) (p : Pattern) : Pattern :=
  if p.canBeEmpty then .opt greedy (.plus greedy p) else .star greedy p

/-- Patterns one after the other. -/
def concat : List Pattern → Pattern
  | [] => .empty
  | [p] => p
  | p :: rest => .seq p (concat rest)

/-- The characters of a word, one after the other. -/
def word (cs : List Char) : Pattern := concat (cs.map char)

/-- The pattern the given number of times. -/
def times (p : Pattern) (n : Nat) : Pattern := concat (List.replicate n p)

/-- The pattern at most the given number of times. -/
def upTo (greedy : Bool) (p : Pattern) : Nat → Pattern
  | 0 => .empty
  | n + 1 => .opt greedy (if n = 0 then p else .seq p (upTo greedy p n))

/-- The pattern from `least` to `most` times, with no upper limit if there is no `most`. -/
def between (greedy : Bool) (p : Pattern) (least : Nat) : Option Nat → Pattern
  | some most => .seq (times p least) (upTo greedy p (most - least))
  | none =>
    match least with
    | 0 => anyNumber greedy p
    | n + 1 => .seq (times p n) (.plus greedy p)

/-! ## Matching -/

/-- The part of the text that a group has read. -/
structure Span where
  group : Nat
  start : Nat
  stop : Nat
deriving DecidableEq, Repr

/-- How far a match has come: the characters read, the text ahead, the groups read, latest first. -/
structure Reading where
  consumed : Nat
  rest : List Char
  groups : List Span
deriving DecidableEq, Repr

namespace Reading

/-- The reading after one more character, if the class has it. -/
def next? (r : Reading) (k : CharClass) : Option Reading :=
  match r.rest with
  | [] => none
  | c :: rest => if k.contains c then some ⟨r.consumed + 1, rest, r.groups⟩ else none

/-- Remembers what has been read since `start` as the group of the given number. -/
def close (r : Reading) (number start : Nat) : Reading :=
  ⟨r.consumed, r.rest, ⟨number, start, r.consumed⟩ :: r.groups⟩

end Reading

/-- Further rounds of a repetition, each of which has to read something. There are no more of them
than there are characters ahead. -/
def rounds {β : Type} (greedy : Bool) (m : Reading → (Reading → Option β) → Option β) :
    (ahead : List Char) → Reading → (Reading → Option β) → Option β
  | [], r, k => k r
  | _ :: ahead, r, k =>
    let again (s : Reading) := if s.consumed = r.consumed then none else rounds greedy m ahead s k
    if greedy then
      match m r again with
      | some out => some out
      | none => k r
    else
      match k r with
      | some out => some out
      | none => m r again

/-- Hands the ways to match on to `k`, in order, up to the first that `k` takes. -/
def search {β : Type} : Pattern → Reading → (Reading → Option β) → Option β
  | .empty, r, k => k r
  | .start, r, k => if r.consumed = 0 then k r else none
  | .finish, r, k => if r.rest = [] then k r else none
  | .one c, r, k => (r.next? c).bind k
  | .seq p q, r, k => search p r fun s => search q s k
  | .alt p q, r, k =>
    match search p r k with
    | some out => some out
    | none => search q r k
  | .opt greedy p, r, k =>
    if greedy then
      match search p r k with
      | some out => some out
      | none => k r
    else
      match k r with
      | some out => some out
      | none => search p r k
  | .group number p, r, k => search p r fun s => k (s.close number r.consumed)
  | .plus greedy p, r, k =>
    search p r fun s =>
      if s.consumed = r.consumed then k s else rounds greedy (search p) s.rest s k
  | .star greedy p, r, k => rounds greedy (search p) r.rest r k

/-- Every way of going on for further rounds. -/
def roundOutcomes (greedy : Bool) (m : Reading → List Reading) :
    (ahead : List Char) → Reading → List Reading
  | [], r => [r]
  | _ :: ahead, r =>
    let more := (m r).flatMap fun s =>
      if s.consumed = r.consumed then [] else roundOutcomes greedy m ahead s
    if greedy then more ++ [r] else r :: more

/-- Every way to match, in the order in which they are tried. -/
def outcomes : Pattern → Reading → List Reading
  | .empty, r => [r]
  | .start, r => if r.consumed = 0 then [r] else []
  | .finish, r => if r.rest = [] then [r] else []
  | .one c, r => (r.next? c).toList
  | .seq p q, r => (outcomes p r).flatMap (outcomes q)
  | .alt p q, r => outcomes p r ++ outcomes q r
  | .opt greedy p, r => if greedy then outcomes p r ++ [r] else r :: outcomes p r
  | .group number p, r => (outcomes p r).map fun s => s.close number r.consumed
  | .plus greedy p, r =>
    (outcomes p r).flatMap fun s =>
      if s.consumed = r.consumed then [s]
      else roundOutcomes greedy (outcomes p) s.rest s
  | .star greedy p, r => roundOutcomes greedy (outcomes p) r.rest r

/-- The first answer among rows of values is the first that any of the rows has. -/
theorem findSome?_flatMap {α β γ : Type} (l : List α) (f : α → List β) (k : β → Option γ) :
    (l.flatMap f).findSome? k = l.findSome? fun a => (f a).findSome? k := by
  induction l with
  | nil => rfl
  | cons a l ih =>
    rw [List.flatMap_cons, List.findSome?_append, ih, List.findSome?_cons]
    cases (f a).findSome? k <;> rfl

/-- A search by rounds gives the first answer among the outcomes of the rounds, if a single round
does. -/
theorem rounds_eq_findSome? {β : Type} (greedy : Bool)
    (m : Reading → (Reading → Option β) → Option β) (l : Reading → List Reading)
    (h : ∀ r k, m r k = (l r).findSome? k) (ahead : List Char) (r : Reading) (k : Reading → Option β) :
    rounds greedy m ahead r k = (roundOutcomes greedy l ahead r).findSome? k := by
  induction ahead generalizing r with
  | nil => simp [rounds, roundOutcomes]
  | cons _ ahead ih =>
    have hmore : (m r fun s => if s.consumed = r.consumed then none else rounds greedy m ahead s k)
        = ((l r).flatMap fun s =>
            if s.consumed = r.consumed then [] else roundOutcomes greedy l ahead s).findSome? k := by
      rw [h, findSome?_flatMap]
      congr 1
      funext s
      by_cases hs : s.consumed = r.consumed <;> simp [hs, ih]
    cases greedy with
    | true =>
      simp only [rounds, roundOutcomes, hmore, if_true, List.findSome?_append,
        List.findSome?_singleton]
      generalize List.findSome? k _ = first
      cases first <;> rfl
    | false =>
      simp only [rounds, roundOutcomes, hmore, Bool.false_eq_true, if_false, List.findSome?_cons]
      cases k r <;> rfl

/-- Searching is going through the ways to match in order. -/
theorem search_eq_findSome? {β : Type} (p : Pattern) (r : Reading) (k : Reading → Option β) :
    search p r k = (outcomes p r).findSome? k := by
  induction p generalizing r k with
  | empty => simp [search, outcomes]
  | start => by_cases h : r.consumed = 0 <;> simp [search, outcomes, h]
  | finish => by_cases h : r.rest = [] <;> simp [search, outcomes, h]
  | one c => cases h : r.next? c <;> simp [search, outcomes, h]
  | seq p q ihp ihq => simp only [search, outcomes, ihp, ihq, findSome?_flatMap]
  | alt p q ihp ihq =>
    simp only [search, outcomes, ihp, ihq, List.findSome?_append]
    generalize List.findSome? k (outcomes p r) = first
    cases first <;> rfl
  | opt greedy p ih =>
    cases greedy with
    | true =>
      simp only [search, outcomes, ih, if_true, List.findSome?_append, List.findSome?_singleton]
      generalize List.findSome? k (outcomes p r) = first
      cases first <;> rfl
    | false =>
      simp only [search, outcomes, ih, Bool.false_eq_true, if_false, List.findSome?_cons]
      cases k r <;> rfl
  | group number p ih => simp [search, outcomes, ih, List.findSome?_map, Function.comp_def]
  | plus greedy p ih =>
    rw [search, outcomes, ih, findSome?_flatMap]
    congr 1
    funext s
    by_cases hs : s.consumed = r.consumed
    · simp [hs]
    · simp only [hs, if_false]
      exact rounds_eq_findSome? greedy (search p) (outcomes p) (fun r k => ih r k) _ s k
  | star greedy p ih => exact rounds_eq_findSome? greedy (search p) (outcomes p) (fun r k => ih r k) _ r k

end Pattern

/-! ## The match of a pattern -/

/-- What has been matched: its text, and the text of each group, latest first. -/
structure Match where
  text : List Char
  groups : List (Nat × List Char)
deriving DecidableEq, Repr

namespace Match

/-- The text of a group, unless it took no part in the match. -/
def group? (m : Match) (number : Nat) : Option (List Char) :=
  m.groups.lookup number

/-- The text of a group, empty if it took no part. -/
def group (m : Match) (number : Nat) : List Char :=
  (m.group? number).getD []

/-- The match of a part of a text, with the parts of it that groups have read. -/
def ofParts (text : List Char) (start stop : Nat) (groups : List Pattern.Span) : Match :=
  let part (start stop : Nat) := (text.drop start).take (stop - start)
  ⟨part start stop, groups.map fun g => (g.group, part g.start g.stop)⟩

end Match

namespace Pattern

/-- The start of a match. -/
def Reading.ofText (text : List Char) : Reading := ⟨0, text, []⟩

/-- The match that a finished reading of a text stands for. -/
def Reading.toMatch (r : Reading) (text : List Char) : Match :=
  .ofParts text 0 r.consumed r.groups

/-- The first way to match at the beginning of a text. -/
def firstMatch? (p : Pattern) (text : List Char) : Option Match :=
  (p.search (.ofText text) some).map (·.toMatch text)

theorem firstMatch?_eq (p : Pattern) (text : List Char) :
    p.firstMatch? text = (p.outcomes (.ofText text)).head?.map (·.toMatch text) := by
  rw [firstMatch?, search_eq_findSome?]
  cases p.outcomes (.ofText text) <;> rfl

/-- The match stands at the beginning of the text. -/
theorem isPrefix_of_firstMatch? {p : Pattern} {text : List Char} {m : Match}
    (h : p.firstMatch? text = some m) : m.text <+: text := by
  obtain ⟨r, _, rfl⟩ := Option.map_eq_some_iff.1 h
  exact List.take_prefix _ _

end Pattern

end GuardedGrammar
