/-
  How failures are reported.

  A report names what was to be done, and below it the causes, the nearest first.  A single cause is
  indented; several are numbered from zero.  Where a cause has more than one line, all lines begin in
  the same column.
-/

namespace GuardedGrammar.Report

/-- A cause, with all lines but the first indented. -/
def indent (margin : String) (cause : String) : String :=
  String.join ((cause.splitOn "\n").intersperse ("\n" ++ margin))

/-- A cause with its number. -/
def numbered (index : Nat) (cause : String) : String :=
  let digits := toString index
  String.ofList (List.replicate (5 - digits.length) ' ') ++ digits ++ ": " ++ indent "       " cause

/-- The causes, each on lines of its own. -/
def causeLines : List String → List String
  | [cause] => ["    " ++ indent "    " cause]
  | causes => causes.zipIdx.map fun (cause, i) => numbered i cause

/-- The report of a failure. -/
def render (context : String) (causes : List String) : String :=
  "Error: " ++ context ++ "\n\nCaused by:\n" ++ String.intercalate "\n" (causeLines causes) ++ "\n"

end GuardedGrammar.Report
