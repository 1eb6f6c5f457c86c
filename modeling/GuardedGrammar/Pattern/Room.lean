/-
  How much room a pattern takes.

  There is a limit to the size of a pattern.  It is measured as the room that its steps take on a
  machine that reads single bytes, and there is one such machine that reads a text forwards and one
  that reads it backwards; both have to stay within the limit.

  * A word takes a step for each byte; of several words those that begin with the same bytes share
    steps, as long as none of them is at its end.
  * A class of ASCII characters is one step with a range for each range of the class.  Any other class
    is read in blocks of bytes.  Forwards, blocks that go on in the same way share steps; backwards,
    only what is read last is shared.
  * A choice takes a step where the ways part and one where they meet, and counted repetitions take
    each round anew.

  The sizes are those of steps that take 32 bytes of memory, of ways out of a step that take 4, and of
  ranges that take 8.
-/
import GuardedGrammar.Pattern.Term
import GuardedGrammar.Text.ByteBlock
import GuardedGrammar.Text.Bytes

namespace GuardedGrammar.Pattern

/-- Which way a text is read. -/
inductive Direction where
  | forwards
  | backwards
deriving DecidableEq, Repr

namespace Room

open Text (ByteBlock)

/-! ## Steps -/

/-- A step. -/
def step : Nat := 32

/-- A way out of a step that has several. -/
def way : Nat := 4

/-- A range of bytes, where a step has several. -/
def range : Nat := 8

/-- A step with two ways out. -/
def fork : Nat := step + 2 * way

/-- The most that a pattern may take. -/
def limit : Nat := 10485760

/-- The sum of what the parts take. -/
def total (rooms : List Nat) : Nat := rooms.foldl (· + ·) 0

/-! ## Classes -/

/-- Groups blocks that follow each other by their first range. -/
def byFirst (blocks : List ByteBlock) : List (List ByteBlock) :=
  blocks.splitBy fun b c => b.head? == c.head?

/-- The ways in which blocks may go on after their first ranges, of which there are at most the given
number. -/
def continuations : (ranges : Nat) → List ByteBlock → List (List ByteBlock)
  | 0, _ => []
  | ranges + 1, blocks =>
    if blocks.all List.isEmpty then []
    else blocks :: (byFirst blocks).flatMap fun group => continuations ranges (group.map List.tail)

/-- Blocks read forwards: a step for each way to go on, however it is reached. -/
def blocksForwards (blocks : List ByteBlock) : Nat :=
  step + total ((continuations 4 blocks).eraseDups.map fun rest =>
    step + range * (byFirst rest).length)

/-- Blocks in ascending order, read backwards: a step for each range in which a block does not agree
with the one before it. -/
def blocksBackwards (blocks : List ByteBlock) : Nat :=
  2 * step + way * blocks.length +
    step * total (List.zipWith (fun before block => block.length - Term.commonLength before block)
      ([] :: blocks) blocks)

/-- A class. -/
def ofClass (d : Direction) (k : CharClass) : Nat :=
  if k.ranges.all fun r => r.2 < 0x80 then 2 * step + range * k.ranges.length
  else
    let blocks := k.ranges.flatMap fun r => Text.byteBlocks r.1 r.2
    match d with
    | .forwards => blocksForwards blocks
    | .backwards => blocksBackwards blocks

/-! ## Words -/

/-- Cuts a list of words where a word is at its end. Ends at the beginning are one. -/
def cutAtEnds (words : List (List UInt8)) : List (List (List UInt8)) :=
  let cut (word : List UInt8) (chunks : List (List (List UInt8))) : List (List (List UInt8)) :=
    match word, chunks with
    | [], chunks => [] :: chunks
    | word, chunk :: chunks => (word :: chunk) :: chunks
    | word, [] => [[word]]
  let chunks := (words.dropWhile List.isEmpty).foldr cut [[]]
  if words.head? = some [] then [] :: chunks else chunks

/-- What words take behind the bytes that they have in common; their length is bounded by `bytes`. -/
def branching : (bytes : Nat) → List (List UInt8) → Nat
  | 0, _ => 0
  | bytes + 1, words =>
    if words.all List.isEmpty then 0
    else
      let chunks := cutAtEnds words
      step + way * (chunks.length - 1) + total (chunks.map fun chunk =>
        let firsts := (chunk.filterMap List.head?).eraseDups
        let reading := match firsts.length with
          | 0 => 0
          | 1 => way + step
          | n => way + step + range * n
        reading + total (firsts.map fun b =>
          branching bytes ((chunk.filter (·.head? == some b)).map List.tail)))

/-- One of several words. -/
def ofWords (d : Direction) (words : List (List Char)) : Nat :=
  let words := words.map fun cs =>
    match d with
    | .forwards => cs.flatMap String.utf8EncodeChar
    | .backwards => (cs.flatMap String.utf8EncodeChar).reverse
  step + branching ((words.map List.length).foldl max 0) words

/-! ## Terms -/

/-- A repetition of what takes so much room. -/
def ofRepetition (least : Nat) (most : Option Nat) (canBeEmpty : Bool) (room : Nat) : Nat :=
  match least, most with
  | 0, some 1 => room + fork + step
  | 0, none => if canBeEmpty then room + 2 * fork + step else room + fork
  | least, none => least * room + fork
  | least, some most =>
    (if least = 0 then step else least * room) +
      (if least = most then 0 else step + (most - least) * (room + fork))

/-- Whether a term is a choice that several alternatives are left of. -/
def isChoice : Term → Bool
  | .alt _ _ => true
  | _ => false

/-- The room that a term takes. Groups are only kept forwards. -/
def ofTerm (d : Direction) : Term → Nat
  | .empty => step
  | .start => step
  | .finish => step
  | .word cs => step * Text.byteSize cs
  | .oneOf words => ofWords d words
  | .one k => ofClass d k
  | .seq t rest => ofTerm d t + ofTerm d rest
  | .alt t rest =>
    ofTerm d t + ofTerm d rest + way + (if isChoice rest then 0 else way + 2 * step)
  | .group _ t => ofTerm d t + (match d with
    | .forwards => 2 * step
    | .backwards => 0)
  | .many least most _ t => ofRepetition least most t.canBeEmpty (ofTerm d t)

/-- Whether a match is tied to the place where reading begins. -/
def isTied (d : Direction) : Term → Bool
  | .start => d = .forwards
  | .finish => d = .backwards
  | .seq t rest =>
    match d with
    | .forwards => isTied d t || t.neverReads && isTied d rest
    | .backwards => isTied d rest || rest.neverReads && isTied d t
  | .alt t rest => isTied d t && isTied d rest
  | .group _ t => isTied d t
  | .many least _ _ t => least != 0 && isTied d t
  | _ => false

/-- The room of a whole pattern: the match is kept as a group, and before a match that is tied to no
place, any bytes are read. -/
def ofWhole (d : Direction) (t : Term) : Nat :=
  ofTerm d (.group 0 t) + step + (if isTied d t then step else fork + 2 * step + range)

/-- Whether a pattern stays within the limit. -/
def fits (t : Term) : Bool :=
  ofWhole .forwards t ≤ limit && ofWhole .backwards t ≤ limit

end Room

end GuardedGrammar.Pattern
