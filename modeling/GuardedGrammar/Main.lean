/-
  The program: reads the files that a command is about and prints its outcome.
-/
import GuardedGrammar.CommandLine.Command

namespace GuardedGrammar

/-- How to call the program. -/
def usage : String :=
  "usage: run -g FILE -i FILE [-s] | tables -g FILE\n"

/-- More steps than any parse takes that comes to an end. -/
def stepLimit : Nat := 4611686018427387904

/-- The bytes of a file, or why they could not be read. -/
def readFile (name : String) : IO FileContent := do
  try
    return .ok (← IO.FS.readBinFile name)
  catch e =>
    match e with
    | .noFileOrDirectory .. => return .error .missing
    -- some calls give the number of an error with its sign turned
    | .inappropriateType _ code _ =>
      return .error (if code = 21 || code = 0 - 21 then .isFolder else .notFolder)
    | .invalidArgument _ code _ =>
      return .error (if code = 36 || code = 0 - 36 then .nameTooLong else .refused (toString e))
    | e => return .error (.refused (toString e))

/-- Carries a command out. -/
def carryOut (c : Command) : IO UInt32 := do
  let contents ← c.files.mapM fun name => do return (name, ← readFile name)
  match c.outcome (fun name => (contents.lookup name).getD (.error .missing)) stepLimit with
  | none => return 1
  | some o =>
    (← IO.getStdout).write (ByteArray.mk o.output.toArray)
    (← IO.getStderr).putStr o.errors
    return o.code.toUInt32

end GuardedGrammar

def main (arguments : List String) : IO UInt32 := do
  match GuardedGrammar.Command.ofArguments? arguments with
  | none =>
    (← IO.getStderr).putStr GuardedGrammar.usage
    return 2
  | some c => GuardedGrammar.carryOut c
