import Calculator.Text.Blank
import Calculator.Text.Alphanumeric
import Calculator.Text.Cursor
import Calculator.Text.DecimalDigit
import Calculator.Text.Lines
import Calculator.Text.Quoted
import Calculator.Number.Layout
import Calculator.Number.Numeral
import Calculator.Number.Arithmetic
import Calculator.Number.Generator
import Calculator.Token.Scan
import Calculator.Expr.Chain
import Calculator.Expr.OfTokens
import Calculator.Code.Listing
import Calculator.Code.OfExpr
import Calculator.Machine
import Calculator.Expr.Format
import Calculator.Program
import Calculator.Report
import Calculator.CommandLine
import Calculator.Main
import Calculator.Proofs.Machine.Operation
import Calculator.Proofs.Program.Meaning
import Calculator.Proofs.Program.Session
import Calculator.Proofs.Machine.History
import Calculator.Proofs.Expr.Yield
import Calculator.Proofs.Scan.Tiles
import Calculator.Proofs.Program.Semicolon
import Calculator.Proofs.Program.Brackets
import Calculator.Proofs.Program.Evaluation
import Calculator.Proofs.Program.Caret
import Calculator.Proofs.Program.Modes
import Calculator.Proofs.Scan.Words
import Calculator.Proofs.Expr.Precedence
import Calculator.Proofs.Machine.Arguments
import Calculator.Proofs.Code.Structured
import Calculator.Proofs.Machine.Frames
import Calculator.Proofs.Program.Frames
import Calculator.Proofs.Machine.Parameters
import Calculator.Proofs.Expr.Parenthesis
import Calculator.Proofs.Code.Chains
import Calculator.Proofs.Expr.Chains
import Calculator.Proofs.Scan.Respaced
import Calculator.Proofs.Machine.Counting
import Calculator.Proofs.Program.Counting
import Calculator.Proofs.Program.Listing
import Calculator.Proofs.Scan.Numeral
import Calculator.Proofs.Scan.Slice
import Calculator.Proofs.Scan.Printed
import Calculator.Proofs.Number.Nearest
import Calculator.Proofs.Program.Indentation
