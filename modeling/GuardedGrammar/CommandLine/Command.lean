/-
  What can be asked for on the command line.

  `run` parses a text of instructions by the rules of a grammar and prints what the actions emit, and
  `tables` prints everything there is to see of a grammar.  Options can be given by their letter or by
  their name, and the value of an option as the next argument or behind an equals sign.
-/
import GuardedGrammar.CommandLine.Report
import GuardedGrammar.GrammarFile
import GuardedGrammar.Instruction
import GuardedGrammar.Listing.Sections
import GuardedGrammar.Parse.Run

namespace GuardedGrammar

/-! ## Options -/

/-- The options that have been given. -/
structure Options where
  grammar : Option String := none
  input : Option String := none
  stats : Bool := false
deriving DecidableEq, Repr

namespace Options

/-- An option that takes a value. -/
inductive Key where
  | grammar
  | input
deriving DecidableEq, Repr

/-- The option of a name, without its dashes. -/
def Key.ofName? (name : List Char) : Option Key :=
  if name = "grammar".toList then some .grammar
  else if name = "input".toList then some .input
  else none

/-- The option of a letter. -/
def Key.ofLetter? : Char → Option Key
  | 'g' => some .grammar
  | 'i' => some .input
  | _ => none

/-- Gives an option its value; it can be given once. -/
def set? (o : Options) (key : Key) (value : String) : Option Options :=
  match key with
  | .grammar => if o.grammar.isSome then none else some { o with grammar := some value }
  | .input => if o.input.isSome then none else some { o with input := some value }

/-- What an argument asks for. -/
inductive Argument where
  /-- An option with its value. -/
  | given (key : Key) (value : String)
  /-- An option whose value is the next argument. -/
  | awaiting (key : Key)
  /-- Statistics are asked for. -/
  | stats
deriving DecidableEq, Repr

/-- What an argument asks for, if it is an option. -/
def argument? (text : List Char) : Option Argument :=
  match text with
  | '-' :: '-' :: rest =>
    if rest = "stats".toList then some .stats
    else
      (Key.ofName? (rest.takeWhile (· != '='))).map fun key =>
        match rest.dropWhile (· != '=') with
        | [] => .awaiting key
        | _ :: value => .given key (String.ofList value)
  | ['-', 's'] => some .stats
  | '-' :: letter :: rest =>
    (Key.ofLetter? letter).map fun key =>
      match rest with
      | [] => .awaiting key
      | '=' :: value => .given key (String.ofList value)
      | value => .given key (String.ofList value)
  | _ => none

/-- The arguments that an argument stands for: the letter of the statistics may have another letter
right behind it. -/
def apart (text : List Char) : List (List Char) :=
  match text with
  | '-' :: 's' :: letter :: rest =>
    if letter = '-' then [text] else ['-', 's'] :: apart ('-' :: letter :: rest)
  | _ => [text]
termination_by text.length

/-- The options that a list of arguments gives, in addition to `o`. -/
def read? (o : Options) : List (List Char) → Option Options
  | [] => some o
  | a :: rest =>
    match argument? a with
    | none => none
    | some .stats => if o.stats then none else read? { o with stats := true } rest
    | some (.given key value) => (o.set? key value).bind fun o => read? o rest
    | some (.awaiting key) =>
      match rest with
      | [] => none
      | value :: rest => (o.set? key (String.ofList value)).bind fun o => read? o rest

/-- The options that arguments give. -/
def ofArguments? (arguments : List String) : Option Options :=
  read? {} (arguments.flatMap fun a => apart a.toList)

end Options

/-! ## Commands -/

/-- A command with the names of the files that it is about. -/
inductive Command where
  | run (grammar input : String)
  | tables (grammar : String)
deriving DecidableEq, Repr

namespace Command

/-- The command that arguments ask for. -/
def ofArguments? (arguments : List String) : Option Command :=
  match arguments with
  | "run" :: rest => do
    let o ← Options.ofArguments? rest
    return .run (← o.grammar) (← o.input)
  | "tables" :: rest => do
    let o ← Options.ofArguments? rest
    if o.input.isSome || o.stats then none else return .tables (← o.grammar)
  | _ => none

/-- The files that a command reads. -/
def files : Command → List String
  | run grammar input => [grammar, input]
  | tables grammar => [grammar]

/-- What a command prints, and the code that it ends with. -/
structure Outcome where
  code : Nat := 0
  output : List UInt8 := []
  errors : String := ""
deriving DecidableEq, Repr

/-- The outcome of a failure, after something has been printed. -/
def failure (output : List UInt8) (context : String) (causes : List String) : Outcome where
  code := 1
  output := output
  errors := Report.render context causes

/-- Parses a source and prints what is emitted; there is no outcome within too few steps. -/
def parseOutcome (g : Grammar) (source : Source) (input : String) (steps : Nat) : Option Outcome :=
  let c := g.parse source {} steps
  c.result?.map fun
    | .ok _ => { output := c.written }
    | .error e => failure c.written ("failed to parse " ++ input) [e.message]

/-- Reads a text of instructions and parses it. -/
def inputOutcome (g : Grammar) (input : String) (content : FileContent) (steps : Nat) :
    Option Outcome :=
  match content.text with
  | .error p => some (failure [] ("failed to read " ++ input) [p.describe])
  | .ok text =>
    match (Instruction.source (Instruction.stripComments text)).result with
    | .error e => some (failure [] ("failed to lex " ++ input) [e.message])
    | .ok source => parseOutcome g source input steps

/-- The outcome of a command, given the files that there are. -/
def outcome (read : String → FileContent) (steps : Nat) (c : Command) : Option Outcome :=
  let withGrammar (grammar : String) (f : Grammar → Option Outcome) : Option Outcome :=
    match (Grammar.ofFile (read grammar)).result with
    | .error e => some (failure [] ("failed to build grammar " ++ grammar) e.causes)
    | .ok g => f g
  match c with
  | .run grammar input =>
    withGrammar grammar fun g => inputOutcome g input (read input) steps
  | .tables grammar =>
    withGrammar grammar fun g => some { output := (Listing.all g).toUTF8.data.toList }

end Command

end GuardedGrammar
