/-
  Terms: written patterns in a normal form.

  A term keeps what was written in fewer ways than there are to write it: classes of the same
  characters are the same class, and a class of one character is a word, characters in a row are one
  word, sequences and alternatives are lists that hold no lists of their own kind, alternatives that
  are characters each are a class, and so are alternatives that are classes each.  What matches the
  empty text only is repeated once at most, and what is repeated once is not repeated.

  Alternatives that begin with the same pieces, and that all go on behind their first piece, share
  those pieces: the shared pieces are matched first, and then an alternative is chosen.  So the ways to
  match come in another order than that in which they are written, and it matters which pieces are the
  same.  A counted repetition is one piece, and it is not the same as its rounds written out.

  A term means a pattern, `Term.pattern`.  Main statements: `pieces_ofPieces` and
  `branches_ofBranches`, a sequence and a choice tell what they are made of.
-/
import GuardedGrammar.Pattern.Basic

namespace GuardedGrammar.Pattern

/-- A written pattern in normal form. -/
inductive Term where
  /-- The empty text. -/
  | empty
  /-- The start of the whole text. -/
  | start
  /-- The end of the whole text. -/
  | finish
  /-- A word, which is not empty. -/
  | word (cs : List Char)
  /-- One of several words, the first that is there. -/
  | oneOf (words : List (List Char))
  /-- One character of a class. -/
  | one (k : CharClass)
  /-- A piece, then what follows it. -/
  | seq (t rest : Term)
  /-- An alternative, then the others. -/
  | alt (t rest : Term)
  /-- A group with a number. -/
  | group (number : Nat) (t : Term)
  /-- A repetition, from `least` to `most` times, with no upper limit if there is no `most`. -/
  | many (least : Nat) (most : Option Nat) (greedy : Bool) (t : Term)
deriving DecidableEq, Repr

namespace Term

/-! ## Meaning -/

/-- Alternatives in order. -/
def inTurn : List Pattern → Pattern
  | [] => .empty
  | [p] => p
  | p :: rest => .alt p (inTurn rest)

/-- The pattern that a term means. -/
def pattern : Term → Pattern
  | empty => .empty
  | start => .start
  | finish => .finish
  | word cs => .word cs
  | oneOf words => inTurn (words.map .word)
  | one k => .one k
  | seq t rest => .seq t.pattern rest.pattern
  | alt t rest => .alt t.pattern rest.pattern
  | group number t => .group number t.pattern
  | many least most greedy t => .between greedy t.pattern least most

/-- Whether nothing but the empty text matches. -/
def neverReads : Term → Bool
  | empty => true
  | start => true
  | finish => true
  | word _ => false
  | oneOf _ => false
  | one _ => false
  | seq t rest => t.neverReads && rest.neverReads
  | alt t rest => t.neverReads && rest.neverReads
  | group _ t => t.neverReads
  | many _ _ _ t => t.neverReads

/-- Whether the empty text can match. -/
def canBeEmpty : Term → Bool
  | empty => true
  | start => true
  | finish => true
  | word _ => false
  | oneOf _ => false
  | one _ => false
  | seq t rest => t.canBeEmpty && rest.canBeEmpty
  | alt t rest => t.canBeEmpty || rest.canBeEmpty
  | group _ t => t.canBeEmpty
  | many least _ _ t => least == 0 || t.canBeEmpty

/-! ## Sequences -/

/-- The terms that a term matches one after the other. -/
def pieces : Term → List Term
  | empty => []
  | seq t rest => t :: rest.pieces
  | t => [t]

/-- Makes one word of words that follow each other. -/
def joinWords : List Term → List Term
  | [] => []
  | t :: rest =>
    match t, joinWords rest with
    | word cs, word ds :: others => word (cs ++ ds) :: others
    | t, others => t :: others

/-- Pieces one after the other. -/
def ofPieces : List Term → Term
  | [] => empty
  | [t] => t
  | t :: rest => seq t (ofPieces rest)

/-- A sequence has the pieces that it is made of. -/
theorem pieces_ofPieces (ts : List Term) (h : ∀ t ∈ ts, t.pieces = [t]) :
    (ofPieces ts).pieces = ts := by
  induction ts with
  | nil => rfl
  | cons t rest ih =>
    cases rest with
    | nil => exact h t (List.mem_singleton_self t)
    | cons u rest =>
      rw [ofPieces, pieces, ih fun v hv => h v (List.mem_cons_of_mem t hv)]
      simp

/-- Terms one after the other. -/
def sequence (ts : List Term) : Term := ofPieces (joinWords (ts.flatMap pieces))

/-! ## Alternatives -/

/-- The terms of which a term matches one. -/
def branches : Term → List Term
  | oneOf words => words.map word
  | alt t rest => t :: rest.branches
  | t => [t]

/-- Alternatives in order. -/
def ofBranches : List Term → Term
  | [] => empty
  | [t] => t
  | t :: rest => alt t (ofBranches rest)

/-- Alternatives are the branches of their choice. -/
theorem branches_ofBranches (ts : List Term) (hts : ts ≠ []) (h : ∀ t ∈ ts, t.branches = [t]) :
    (ofBranches ts).branches = ts := by
  induction ts with
  | nil => exact absurd rfl hts
  | cons t rest ih =>
    cases rest with
    | nil => exact h t (List.mem_singleton_self t)
    | cons u rest =>
      rw [ofBranches, branches, ih (by simp) fun v hv => h v (List.mem_cons_of_mem t hv)]
      simp

/-- A character of a class. -/
def ofClass (k : CharClass) : Term :=
  match k.single? with
  | some c => word [c]
  | none => one k

/-- The word that a term is, if it is one. -/
def word? : Term → Option (List Char)
  | word cs => some cs
  | _ => none

/-- The character that a term is, if it is one. -/
def char? : Term → Option Char
  | word [c] => some c
  | _ => none

/-- The class that a term is, if it is one. -/
def class? : Term → Option CharClass
  | one k => some k
  | _ => none

/-- A choice between alternatives that have nothing to share. -/
def separate (ts : List Term) : Term :=
  match ts.mapM char?, ts.mapM class?, ts.mapM word? with
  | some cs, _, _ => ofClass (.ofList cs)
  | _, some ks, _ => ofClass (.unions ks)
  | _, _, some words => oneOf words
  | _, _, _ => ofBranches ts

/-- How many elements two lists have in common at their beginning. -/
def commonLength {α : Type} [DecidableEq α] (l m : List α) : Nat :=
  ((l.zip m).takeWhile fun (a, b) => a == b).length

/-- The pieces that all alternatives begin with, each given by its pieces. An alternative of one piece
has nothing to share. -/
def shared : List (List Term) → List Term
  | [] => []
  | first :: others =>
    if (first :: others).all (1 < ·.length) then
      first.take (others.foldl (fun n other => min n (commonLength first other)) first.length)
    else []

/-- A choice between alternatives. -/
def choice (ts : List Term) : Term :=
  match ts with
  | [t] => t
  | ts =>
    let ts := ts.flatMap branches
    let shared := shared (ts.map pieces)
    let rests := ts.map fun t => ofPieces (t.pieces.drop shared.length)
    sequence (shared ++ [separate (rests.flatMap branches)])

/-! ## Repetition -/

/-- A repetition. -/
def repeated (least : Nat) (most : Option Nat) (greedy : Bool) (t : Term) : Term :=
  let (least, most) :=
    if t.neverReads then (min least 1, some (min (most.getD 1) 1)) else (least, most)
  if most = some 0 then empty
  else if least = 1 ∧ most = some 1 then t
  else many least most greedy t

end Term

end GuardedGrammar.Pattern
