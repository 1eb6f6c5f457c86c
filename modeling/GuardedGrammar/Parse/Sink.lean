/-
  Where emitted lines go.

  A sink takes bytes in order.  One that has only so much room keeps the bytes that still fit and
  refuses the others.  Main statement: `written_write`, a write adds the bytes that fit and leaves what
  has been written before.
-/

namespace GuardedGrammar

/-- A place to write to: how many more bytes it takes, if there is a limit, and what has been written,
the latest write first. -/
structure Sink where
  room : Option Nat := none
  writes : List (List UInt8) := []
deriving DecidableEq, Repr

namespace Sink

/-- All bytes that have been written, in order. -/
def written (s : Sink) : List UInt8 := s.writes.reverse.flatten

/-- The part of a sequence of bytes that fits. -/
def fitting (s : Sink) (bytes : List UInt8) : List UInt8 :=
  match s.room with
  | none => bytes
  | some n => bytes.take n

/-- The sink after a write; what does not fit is lost. -/
def write (s : Sink) (bytes : List UInt8) : Sink where
  room := s.room.map (· - bytes.length)
  writes := s.fitting bytes :: s.writes

/-- Whether all of the bytes fit. -/
def takes (s : Sink) (bytes : List UInt8) : Bool :=
  match s.room with
  | none => true
  | some n => bytes.length ≤ n

/-- What a sink says when it refuses a byte. -/
def refusal : String := "sink full"

/-- The bytes of a line with its line feed. -/
def lineBytes (line : String) : List UInt8 := (line ++ "\n").toUTF8.data.toList

/-- What is written is added to what has been written, as far as there is room. -/
@[simp] theorem written_write (s : Sink) (bytes : List UInt8) :
    (s.write bytes).written = s.written ++ s.fitting bytes := by
  simp [written, write]

/-- What fits is all there is if all of it fits. -/
theorem fitting_of_takes (s : Sink) (bytes : List UInt8) (h : s.takes bytes = true) :
    s.fitting bytes = bytes := by
  unfold takes at h
  unfold fitting
  cases hr : s.room with
  | none => rfl
  | some n =>
    simp only [hr, decide_eq_true_eq] at h
    exact List.take_of_length_le h

end Sink

end GuardedGrammar
