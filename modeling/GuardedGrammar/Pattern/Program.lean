/-
  Patterns carried out in lock step.

  A program is a list of steps, and a step names those that may follow it by their places in the list.
  THREADS go through it side by side, in order of preference, and all of them read a character before
  any of them reads the next.  A thread that comes to a step where another one has been at the same
  place of the text is dropped: the other is preferred, and whatever this one could go on to find, the
  other finds.  So no way of writing a pattern costs more than the size of its program for each
  character, and matching ends although a loop may read nothing.

  It follows which rounds of a repetition are made where the repeated part may be empty: none that
  would come back, at the same place of the text, to a step where a preferred thread has been.

  Main statement: `isInfix_of_find?`, what is found is a part of the text.
-/
import GuardedGrammar.Pattern.Basic

namespace GuardedGrammar

/-! ## Steps -/

/-- What a thread does before it goes on to another step. -/
inductive Pattern.Step where
  /-- Nothing. -/
  | pass (next : Nat)
  /-- Reads a character of a class. -/
  | read (k : CharClass) (next : Nat)
  /-- Goes both ways; the first is preferred. -/
  | fork (first second : Nat)
  /-- A group begins. -/
  | opening (next : Nat)
  /-- The group that began last is at its end. -/
  | closing (number next : Nat)
  /-- Goes on only at the start of the text. -/
  | atStart (next : Nat)
  /-- Goes on only at the end of the text. -/
  | atEnd (next : Nat)
  /-- The match is found. -/
  | accept
deriving DecidableEq, Repr

namespace Pattern

/-- How many steps the program of a pattern has. -/
def size : Pattern → Nat
  | .empty => 1
  | .start => 1
  | .finish => 1
  | .one _ => 1
  | .seq p q => p.size + q.size
  | .alt p q => p.size + q.size + 1
  | .opt _ p => p.size + 1
  | .group _ p => p.size + 2
  | .plus _ p => p.size + 1
  | .star _ p => p.size + 1

/-- The steps of a pattern, the first of which stands at `place`; `next` is the step behind them. -/
def steps : Pattern → (place next : Nat) → List Step
  | .empty, _, next => [.pass next]
  | .start, _, next => [.atStart next]
  | .finish, _, next => [.atEnd next]
  | .one k, _, next => [.read k next]
  | .seq p q, place, next => p.steps place (place + p.size) ++ q.steps (place + p.size) next
  | .alt p q, place, next =>
    .fork (place + 1) (place + 1 + p.size) ::
      (p.steps (place + 1) next ++ q.steps (place + 1 + p.size) next)
  | .opt greedy p, place, next =>
    (if greedy then .fork (place + 1) next else .fork next (place + 1)) :: p.steps (place + 1) next
  | .group number p, place, next =>
    .opening (place + 1) ::
      (p.steps (place + 1) (place + 1 + p.size) ++ [.closing number next])
  | .plus greedy p, place, next =>
    p.steps place (place + p.size) ++ [if greedy then .fork place next else .fork next place]
  | .star greedy p, place, next =>
    (if greedy then .fork (place + 1) next else .fork next (place + 1)) :: p.steps (place + 1) place

end Pattern

/-! ## Threads -/

/-- The steps of a pattern, the first of them in front, and the acceptance behind them. -/
abbrev Program := Array Pattern.Step

namespace Program

open Pattern (Step Span)

/-- The program of a pattern. -/
def ofPattern (p : Pattern) : Program :=
  (p.steps 0 p.size ++ [Step.accept]).toArray

/-- A thread: its step, the place where its match starts, the places where the groups began that are
still open, latest first, and the groups read, latest first. -/
structure Thread where
  step : Nat
  start : Nat
  opened : List Nat := []
  groups : List Span := []

namespace Thread

/-- The thread at another step. -/
def goto (t : Thread) (step : Nat) : Thread := { t with step }

/-- A group begins. -/
def openAt (t : Thread) (place : Nat) : Thread := { t with opened := place :: t.opened }

/-- The group that began last is at its end. -/
def closeAt (t : Thread) (number place : Nat) : Thread :=
  match t.opened with
  | [] => t
  | start :: opened => { t with opened, groups := ⟨number, start, place⟩ :: t.groups }

end Thread

/-- A place of the text: how much is before it, and whether anything is behind it. -/
structure Place where
  before : Nat
  last : Bool

/-- Where a step leads without reading a character, the preferred thread first. A step that reads or
accepts leads nowhere. -/
def successors (place : Place) (t : Thread) : Step → List Thread
  | .pass next => [t.goto next]
  | .fork first second => [t.goto first, t.goto second]
  | .opening next => [(t.openAt place.before).goto next]
  | .closing number next => [(t.closeAt number place.before).goto next]
  | .atStart next => if place.before = 0 then [t.goto next] else []
  | .atEnd next => if place.last then [t.goto next] else []
  | .read _ _ => []
  | .accept => []

/-- Whether a thread stays at a step until a character is read. -/
def isWaiting : Step → Bool
  | .read _ _ => true
  | .accept => true
  | _ => false

/-- Each step that is seen for the first time leaves fewer to be seen. -/
theorem count_false_set_lt {seen : Array Bool} {i : Nat} (h : seen[i]? = some false) :
    ((seen.setIfInBounds i true).toList.count false) < seen.toList.count false := by
  have hi : i < seen.toList.length := by
    simpa using (Array.getElem?_eq_some_iff.1 h).1
  have hv : seen.toList[i] = false := by
    simpa using (Array.getElem?_eq_some_iff.1 h).2
  have hpos : 0 < seen.toList.count false := by
    rw [List.count_pos_iff]
    exact hv ▸ List.getElem_mem hi
  rw [Array.toList_setIfInBounds, List.count_set hi]
  simp only [hv, beq_self_eq_true, if_true, Bool.true_beq, Bool.false_eq_true, if_false]
  omega

/-- A step leads to two others at most. -/
theorem length_successors_le (place : Place) (t : Thread) (step : Step) :
    (successors place t step).length ≤ 2 := by
  cases step with
  | atStart =>
    rw [successors]
    split
    · exact Nat.le_succ 1
    · exact Nat.zero_le 2
  | atEnd =>
    rw [successors]
    split
    · exact Nat.le_succ 1
    · exact Nat.zero_le 2
  | fork => exact Nat.le_refl 2
  | read => exact Nat.zero_le 2
  | accept => exact Nat.zero_le 2
  | pass => exact Nat.le_succ 1
  | opening => exact Nat.le_succ 1
  | closing => exact Nat.le_succ 1

/-- The threads that wait for a character, or have found the match, when the pending threads have gone
on as far as they can; `seen` tells the steps where a thread has been. -/
def settled (program : Program) (place : Place) (seen : Array Bool) (waiting : List Thread) :
    List Thread → List Thread
  | [] => waiting.reverse
  | t :: pending =>
    match _h : seen[t.step]? with
    | some false =>
      match program[t.step]? with
      | none => settled program place (seen.setIfInBounds t.step true) waiting pending
      | some step =>
        settled program place (seen.setIfInBounds t.step true)
          (if isWaiting step then t :: waiting else waiting) (successors place t step ++ pending)
    | _ => settled program place seen waiting pending
-- a step that has not been seen is seen now, and puts two threads at most in the place of one
termination_by pending => 2 * seen.toList.count false + pending.length
decreasing_by
  · have := count_false_set_lt _h
    simp only [List.length_cons]
    omega
  · have := count_false_set_lt _h
    have := length_successors_le place t step
    simp only [List.length_cons, List.length_append]
    omega
  · simp only [List.length_cons]
    omega

/-- The threads at a place, from the pending ones. -/
def threadsAt (program : Program) (place : Place) (pending : List Thread) : List Thread :=
  program.settled place (Array.replicate program.size false) [] pending

/-- The thread after a character, if its step reads it. -/
def advance (program : Program) (c : Char) (t : Thread) : Option Thread :=
  match program[t.step]? with
  | some (.read k next) => if k.contains c then some (t.goto next) else none
  | _ => none

/-- Whether a thread has found the match. -/
def accepts (program : Program) (t : Thread) : Bool :=
  program[t.step]? = some .accept

/-! ## The search for a match -/

/-- Whether a match may start elsewhere than at the start of the text. All other places are alike,
except that one of them is the last. -/
def roams (program : Program) : Bool :=
  [false, true].any fun last => !(program.threadsAt ⟨1, last⟩ [{ step := 0, start := 1 }]).isEmpty

/-- A thread that has found the match, and the place where it did. -/
structure Found where
  thread : Thread
  stop : Nat

/-- As long as nothing has been found, a new thread starts at each place, after all others. -/
def entering (roams : Bool) (before : Nat) (found : Option Found) : List Thread :=
  if found.isNone && (roams || before == 0) then [{ step := 0, start := before }] else []

/-- Goes on with the pending threads from a place of the text. A thread that finds the match ends those
that are less preferred; the others may still find one that is preferred to it. -/
def run (program : Program) (roams : Bool) (before : Nat) (pending : List Thread)
    (found : Option Found) (text : List Char) : Option Found :=
  let pending := pending ++ entering roams before found
  if pending.isEmpty then found
  else
    let threads := program.threadsAt ⟨before, text.isEmpty⟩ pending
    let found := ((threads.find? program.accepts).map fun t => ⟨t, before⟩).or found
    match text with
    | [] => found
    | c :: rest =>
      let going := threads.takeWhile fun t => !program.accepts t
      run program roams (before + 1) (going.filterMap (program.advance c)) found rest

/-- The match in a text that starts first, the preferred one of those. -/
def find? (program : Program) (text : List Char) : Option Match :=
  (program.run program.roams 0 [] none text).map fun found =>
    .ofParts text found.thread.start found.stop found.thread.groups

/-- What is found is a part of the text. -/
theorem isInfix_of_find? {program : Program} {text : List Char} {m : Match}
    (h : program.find? text = some m) : m.text <:+: text := by
  obtain ⟨found, _, rfl⟩ := Option.map_eq_some_iff.1 h
  exact ( List.take_prefix _ _).isInfix.trans ( List.drop_suffix _ _).isInfix

end Program

end GuardedGrammar
