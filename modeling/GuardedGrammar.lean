import GuardedGrammar.Attributes
import GuardedGrammar.Automaton.Collection
import GuardedGrammar.Automaton.First
import GuardedGrammar.Automaton.Follow
import GuardedGrammar.Automaton.Production
import GuardedGrammar.BuildError
import GuardedGrammar.CommandLine.Command
import GuardedGrammar.CommandLine.Report
import GuardedGrammar.File
import GuardedGrammar.Grammar.Basic
import GuardedGrammar.Grammar.Build
import GuardedGrammar.GrammarFile
import GuardedGrammar.Inconsistency
import GuardedGrammar.Instruction
import GuardedGrammar.Journal.Event
import GuardedGrammar.Journal.Pull
import GuardedGrammar.Journal.Task
import GuardedGrammar.Journal.Traced
import GuardedGrammar.Lexer.Basic
import GuardedGrammar.Lexer.Tokenizer
import GuardedGrammar.Lexer.Tokens
import GuardedGrammar.Lexer.Written
import GuardedGrammar.Listing.Box
import GuardedGrammar.Listing.Sections
import GuardedGrammar.Main
import GuardedGrammar.Parse.Error
import GuardedGrammar.Parse.Run
import GuardedGrammar.Parse.Scope
import GuardedGrammar.Parse.Session
import GuardedGrammar.Parse.Sink
import GuardedGrammar.Parse.Step
import GuardedGrammar.Pattern.Basic
import GuardedGrammar.Pattern.Brackets
import GuardedGrammar.Pattern.CharClass
import GuardedGrammar.Pattern.Escape
import GuardedGrammar.Pattern.Mark
import GuardedGrammar.Pattern.Program
import GuardedGrammar.Pattern.Reader
import GuardedGrammar.Pattern.Room
import GuardedGrammar.Pattern.Term
import GuardedGrammar.Proofs.Answers
import GuardedGrammar.Proofs.Asking
import GuardedGrammar.Proofs.Beginnings
import GuardedGrammar.Proofs.BoundedOutput
import GuardedGrammar.Proofs.Built
import GuardedGrammar.Proofs.Cells
import GuardedGrammar.Proofs.Classification
import GuardedGrammar.Proofs.ClauseRefusal
import GuardedGrammar.Proofs.ClauseSpelling
import GuardedGrammar.Proofs.Clauses
import GuardedGrammar.Proofs.Closure
import GuardedGrammar.Proofs.Completeness
import GuardedGrammar.Proofs.Composition
import GuardedGrammar.Proofs.Concatenation
import GuardedGrammar.Proofs.Confined
import GuardedGrammar.Proofs.Contents
import GuardedGrammar.Proofs.Cutting
import GuardedGrammar.Proofs.DeclaredTables
import GuardedGrammar.Proofs.Derivation
import GuardedGrammar.Proofs.Disputes
import GuardedGrammar.Proofs.Drawing
import GuardedGrammar.Proofs.Effects
import GuardedGrammar.Proofs.Exploration
import GuardedGrammar.Proofs.First
import GuardedGrammar.Proofs.FirstMatch
import GuardedGrammar.Proofs.Fixpoint
import GuardedGrammar.Proofs.Follow
import GuardedGrammar.Proofs.Followers
import GuardedGrammar.Proofs.FurtherText
import GuardedGrammar.Proofs.InstructionLines
import GuardedGrammar.Proofs.InstructionWords
import GuardedGrammar.Proofs.LastingNumbers
import GuardedGrammar.Proofs.LineEndings
import GuardedGrammar.Proofs.Literals
import GuardedGrammar.Proofs.Lookahead
import GuardedGrammar.Proofs.MaximalMunch
import GuardedGrammar.Proofs.Numbering
import GuardedGrammar.Proofs.Occurrences
import GuardedGrammar.Proofs.Outcome
import GuardedGrammar.Proofs.ParseTree
import GuardedGrammar.Proofs.Places
import GuardedGrammar.Proofs.Reachability
import GuardedGrammar.Proofs.Refusal
import GuardedGrammar.Proofs.Registers
import GuardedGrammar.Proofs.RenamedParse
import GuardedGrammar.Proofs.Renaming
import GuardedGrammar.Proofs.Resolution
import GuardedGrammar.Proofs.Returns
import GuardedGrammar.Proofs.RoundTrip
import GuardedGrammar.Proofs.Rows
import GuardedGrammar.Proofs.RuleAutomaton
import GuardedGrammar.Proofs.RuleFile
import GuardedGrammar.Proofs.RuleRefusal
import GuardedGrammar.Proofs.RuleSpelling
import GuardedGrammar.Proofs.Safety
import GuardedGrammar.Proofs.Selection
import GuardedGrammar.Proofs.SententialForm
import GuardedGrammar.Proofs.Soundness
import GuardedGrammar.Proofs.Spelling
import GuardedGrammar.Proofs.StackPath
import GuardedGrammar.Proofs.Steps
import GuardedGrammar.Proofs.TableLookup
import GuardedGrammar.Proofs.Termination
import GuardedGrammar.Proofs.TokenValues
import GuardedGrammar.Proofs.Trace
import GuardedGrammar.Proofs.Translation
import GuardedGrammar.Proofs.ViablePrefix
import GuardedGrammar.Proofs.WellFormedRules
import GuardedGrammar.Proofs.Words
import GuardedGrammar.Rule.Basic
import GuardedGrammar.Rule.Printer
import GuardedGrammar.RuleText.Clause
import GuardedGrammar.RuleText.ClauseToken
import GuardedGrammar.RuleText.Error
import GuardedGrammar.RuleText.RuleToken
import GuardedGrammar.RuleText.Rules
import GuardedGrammar.Settle
import GuardedGrammar.SortedSet
import GuardedGrammar.Stack
import GuardedGrammar.SymbolTable
import GuardedGrammar.Table.Basic
import GuardedGrammar.Table.Conflict
import GuardedGrammar.Table.Construction
import GuardedGrammar.Text.Blank
import GuardedGrammar.Text.ByteBlock
import GuardedGrammar.Text.Bytes
import GuardedGrammar.Text.Digit
import GuardedGrammar.Text.Hidden
import GuardedGrammar.Text.Lines
import GuardedGrammar.Text.Location
import GuardedGrammar.Text.Quoted
import GuardedGrammar.Proofs.Accounting
import GuardedGrammar.Proofs.LeastClosed
import GuardedGrammar.Proofs.Validation
import GuardedGrammar.Proofs.Noting
import GuardedGrammar.Proofs.Rounds
import GuardedGrammar.Proofs.Bounds
