import Slate.Command.Arguments
import Slate.Command.Response
import Slate.Failure
import Slate.Fault
import Slate.Grammar.Cursor
import Slate.Grammar.Expr
import Slate.Grammar.Program
import Slate.Grammar.Stmt
import Slate.Input
import Slate.Machine
import Slate.Machine.Eval
import Slate.Main
import Slate.Numeral
import Slate.Operator
import Slate.Outline
import Slate.Program
import Slate.Proofs.Arithmetic.Division
import Slate.Proofs.Arithmetic.Polynomial
import Slate.Proofs.Calls.Resolution
import Slate.Proofs.Calls.Symbolic
import Slate.Proofs.Evaluation.Requests
import Slate.Proofs.Evaluation.SlotNames
import Slate.Proofs.Execution.Assignment
import Slate.Proofs.Execution.Congruence
import Slate.Proofs.Execution.Effects
import Slate.Proofs.Execution.Footprint
import Slate.Proofs.Execution.Frame
import Slate.Proofs.Execution.Joining
import Slate.Proofs.Execution.Laps
import Slate.Proofs.Execution.Limit
import Slate.Proofs.Execution.Session
import Slate.Proofs.Execution.Step
import Slate.Proofs.Execution.Truncation
import Slate.Proofs.Execution.Visibility
import Slate.Proofs.Grammar.Braces
import Slate.Proofs.Grammar.Closing
import Slate.Proofs.Grammar.Completeness
import Slate.Proofs.Grammar.Congruence
import Slate.Proofs.Grammar.Derivation
import Slate.Proofs.Grammar.LongForm
import Slate.Proofs.Grammar.Passing
import Slate.Proofs.Grammar.Progress
import Slate.Proofs.Grammar.Prolongation
import Slate.Proofs.Grammar.Recursion
import Slate.Proofs.Grammar.Refusals
import Slate.Proofs.Grammar.Soundness
import Slate.Proofs.Grammar.Statement
import Slate.Proofs.Grammar.Step
import Slate.Proofs.Grammar.Targets
import Slate.Proofs.Grammar.Termination
import Slate.Proofs.Input.Conservation
import Slate.Proofs.Input.Integers
import Slate.Proofs.Input.Loopback
import Slate.Proofs.Nesting.Balance
import Slate.Proofs.Nesting.Expansion
import Slate.Proofs.Nesting.Height
import Slate.Proofs.Nesting.Tallest
import Slate.Proofs.Nesting.Threshold
import Slate.Proofs.Printing.Outlines
import Slate.Proofs.Printing.Print
import Slate.Proofs.Printing.RoundTrip
import Slate.Proofs.Printing.SelfDelimiting
import Slate.Proofs.Sequence
import Slate.Proofs.Token.Failures
import Slate.Proofs.Token.LongestMatch
import Slate.Proofs.Token.Separation
import Slate.Proofs.Token.Spelling
import Slate.Sink
import Slate.Store
import Slate.Text.Quoted
import Slate.Text.Unprintable
import Slate.Token
import Slate.Token.Listing
import Slate.Token.Scan
import Slate.Tree
import Slate.Word
