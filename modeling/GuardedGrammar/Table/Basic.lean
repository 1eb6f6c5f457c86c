/-
  Tables of actions.

  For each state of the automaton a row says what to do when a terminal comes, and where to go after a
  nonterminal has been put together.  A cell can hold several reductions, as long as guards are there
  to decide between them.  Columns count the terminals from the first one on.

  Main statement: `Cell.receive_of_accept`, a cell that accepts stays as it is.
-/
import GuardedGrammar.Automaton.Production

namespace GuardedGrammar

/-- What a parse can do. -/
inductive Action where
  /-- Push the terminal and go to the state. -/
  | shift (state : Nat)
  /-- Put the right-hand side of a production together to its left-hand side. -/
  | reduce (production : Nat)
  /-- The input is a sentence. -/
  | accept
deriving DecidableEq, Repr

namespace Action

/-- How an action is listed. -/
def render : Action → String
  | shift state => "s" ++ toString state
  | reduce production => "r" ++ toString production
  | accept => "acc"

def isShift : Action → Bool
  | shift _ => true
  | _ => false

/-- Whether this is the reduction of a production without a guard. -/
def isUnguarded (productions : List Production) : Action → Bool
  | reduce p => !(productions[p]?.map (·.guarded)).getD false
  | _ => false

/-- The production that is reduced, if the action reduces one. -/
def reduction? : Action → Option Nat
  | reduce p => some p
  | _ => none

end Action

/-- What can be done in a state when a terminal comes. -/
abbrev Cell := List Action

namespace Cell

/-- The actions as they are listed. -/
def render (c : Cell) : String := String.intercalate ", " (c.map Action.render)

/-- Adds an action unless it is there already. -/
def enter (c : Cell) (a : Action) : Cell := if c.contains a then c else c ++ [a]

/-! ## Entering a reduction -/

/-- What becomes of a cell when a reduction is to be entered. -/
inductive Admission where
  /-- The cell stays as it is. -/
  | refused
  /-- The reduction comes last. -/
  | added
  /-- The reduction takes the place of another. -/
  | instead (old : Nat)
deriving DecidableEq, Repr

/-- The first reduction without a guard in a cell. -/
def unguarded? (productions : List Production) (c : Cell) : Option Nat :=
  (c.find? (·.isUnguarded productions)).bind Action.reduction?

/-- How many symbols a production has on its right-hand side. -/
def lengthOf (productions : List Production) (p : Nat) : Nat :=
  (productions[p]?.map (·.rhs.length)).getD 0

/-- Acceptance keeps every reduction out.  Reductions with a guard are all kept.  Of those without one
a cell keeps a single one, which gives way to any that is at least as long. -/
def admission (productions : List Production) (c : Cell) (p : Nat) : Admission :=
  if c.contains .accept || c.contains (.reduce p) then .refused
  else if !(Action.reduce p).isUnguarded productions then .added
  else
    match c.unguarded? productions with
    | none => .added
    | some old => if lengthOf productions old ≤ lengthOf productions p then .instead old else .refused

/-- Enters a reduction in a cell. -/
def receive (productions : List Production) (c : Cell) (p : Nat) : Cell :=
  match admission productions c p with
  | .refused => c
  | .added => c ++ [.reduce p]
  | .instead old => c.replace (.reduce old) (.reduce p)

/-- A cell that accepts takes no reductions. -/
theorem receive_of_accept (productions : List Production) (c : Cell) (p : Nat)
    (h : Action.accept ∈ c) : c.receive productions p = c := by
  have : admission productions c p = .refused := by simp [admission, h]
  simp [receive, this]

end Cell

/-! ## Rows and tables -/

/-- The cells of a state, by column, and where to go with each nonterminal. -/
structure Row where
  actions : List Cell
  gotos : List (Option Nat)
deriving DecidableEq, Repr

/-- A row that says nothing yet. -/
def Row.blank (terminals nonterminals : Nat) : Row :=
  ⟨List.replicate terminals [], List.replicate nonterminals none⟩

/-- One row for each state. -/
abbrev Tables := List Row

namespace Tables

/-- The actions in a state for a column; none if there is no such state or column. -/
def cell (t : Tables) (state column : Nat) : Cell :=
  (t[state]?.bind (·.actions[column]?)).getD []

/-- Where to go from a state with a nonterminal. -/
def goto? (t : Tables) (state nonterminal : Nat) : Option Nat :=
  t[state]?.bind fun row => (row.gotos[nonterminal]?).bind id

end Tables

end GuardedGrammar
