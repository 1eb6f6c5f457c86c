/-
  Reading a pattern from its usual notation.

  A text is cut into marks, and a term is built from the marks with a stack of the groups that are
  open.  Not a pattern is what has no marks, groups that do not match up, a repetition of nothing, and
  whatever is nested too deeply or takes too much room.
-/
import GuardedGrammar.Pattern.Mark
import GuardedGrammar.Pattern.Room

namespace GuardedGrammar.Pattern

/-- How deeply a pattern may be nested. -/
def depthLimit : Nat := 250

/-- A part that has been read, and how deeply it is nested. -/
structure Part where
  term : Term
  depth : Nat := 0

namespace Part

/-- Parts one after the other. -/
def sequence (parts : List Part) : Part :=
  ⟨.sequence (parts.map (·.term)), nesting (parts.map (·.depth))⟩

/-- Alternatives. -/
def choice (parts : List Part) : Part :=
  ⟨.choice (parts.map (·.term)), nesting (parts.map (·.depth))⟩

/-- A part in parentheses, which may have a number. -/
def grouped (p : Part) (number : Option Nat) : Part :=
  ⟨match number with
    | some number => .group number p.term
    | none => p.term, p.depth + 1⟩

/-- A repetition. -/
def repeated (p : Part) (least : Nat) (most : Option Nat) (greedy : Bool) : Part :=
  ⟨.repeated least most greedy p.term, p.depth + 1⟩

end Part

/-- A group that is being read: its number, whether the dot stands for all, the alternatives that are
complete, and the parts of the current one, both with the latest first. -/
structure Frame where
  number : Option Nat
  dotAll : Bool
  branches : List Part := []
  items : List Part := []

namespace Frame

/-- Adds a part to the current alternative. -/
def push (f : Frame) (p : Part) : Frame := { f with items := p :: f.items }

/-- Starts the next alternative. -/
def split (f : Frame) : Frame :=
  { f with branches := .sequence f.items.reverse :: f.branches, items := [] }

/-- All that has been read, without the parentheses. -/
def content (f : Frame) : Part := .choice f.split.branches.reverse

end Frame

/-- The term of a character or class in one piece. -/
def Atom.toTerm : Atom → Term
  | char c => .word [c]
  | set k => .ofClass k

/-- Builds a part from marks; `f` is the innermost open group, `outer` are those around it, and
`groups` is how many have got a number. -/
def assemble? : List Mark → (groups : Nat) → (f : Frame) → (outer : List Frame) → Option Part
  | [], _, f, outer => if outer.isEmpty then some f.content else none
  | m :: rest, groups, f, outer =>
    match m with
    | .atom a => assemble? rest groups (f.push { term := a.toTerm }) outer
    | .brackets k depth => assemble? rest groups (f.push ⟨.ofClass k, depth⟩) outer
    | .dot =>
      let k := if f.dotAll then CharClass.all else .noneOf ['\n']
      assemble? rest groups (f.push { term := .one k }) outer
    | .start => assemble? rest groups (f.push { term := .start }) outer
    | .finish => assemble? rest groups (f.push { term := .finish }) outer
    | .bar => assemble? rest groups f.split outer
    | .opening true all =>
      assemble? rest (groups + 1) ⟨some (groups + 1), f.dotAll || all, [], []⟩ (f :: outer)
    | .opening false all => assemble? rest groups ⟨none, f.dotAll || all, [], []⟩ (f :: outer)
    | .closing =>
      match outer with
      | [] => none
      | g :: outer => assemble? rest groups (g.push (f.content.grouped f.number)) outer
    | .repeated least most greedy =>
      match f.items with
      | [] => none
      | p :: items =>
        assemble? rest groups { f with items := p.repeated least most greedy :: items } outer

/-- The pattern that a text denotes. -/
def ofText? (text : List Char) : Option Pattern := do
  let p ← assemble? (← marks? text) 0 ⟨none, false, [], []⟩ []
  if p.depth ≤ depthLimit && Room.fits p.term then some p.term.pattern else none

end GuardedGrammar.Pattern
