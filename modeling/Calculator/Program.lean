import Calculator.Code.Listing
import Calculator.Fault

/-
  Programs from text to result: text to tokens, tokens to an expression, the expression to code or
  back to text, and code to a result on a machine.  `notices` tells what happens on the way.
-/

namespace Calculator

/-- The tokens of a program. -/
def tokensOf (source : String) : Except Fault (List Token) :=
  (tokenize (.ofString source)).mapError .scan

/-- The expression that a program is. -/
def parseSource [Limits] (source : String) : Except Fault Expr := do
  (Expr.ofTokens (← tokensOf source)).mapError .parse

/-- The code of a program. -/
def compileSource [Limits] (source : String) : Except Fault (List Instr) := do
  (← parseSource source).toCode.mapError .code

/-- The text of an expression. -/
def formatExpr [Limits] (mode : Mode) (e : Expr) : Except Fault (List Char) :=
  (e.toText mode).mapError .format

/-- A program laid out anew. -/
def formatSource [Limits] (mode : Mode) (source : String) : Except Fault (List Char) := do
  formatExpr mode (← parseSource source)

/-- The listing of some code in which every comparison exists. -/
def disassemble (depth : Nat) (code : List Instr) : Except Fault (List Char) :=
  match Listing.misplaced? code with
  | some place => .error (.run (.noComparison place))
  | none => .ok (listing depth code)

namespace Machine

/-- Runs some code; gives the fault, if any, and the machine after the run. -/
def exec [Limits] (code : List Instr) (m : Machine) : Option Fault × Machine :=
  match m.run code with
  | .ok m => (none, m)
  | .error (fault, m) => (some (.run fault), m)

/-- Runs a program and takes its result.  A program that has no code leaves the machine alone. -/
def compute [Limits] (source : String) (m : Machine) : Except Fault (Option Number) × Machine :=
  match compileSource source with
  | .error fault => (.error fault, m)
  | .ok code =>
    match m.run code with
    | .error (fault, m) => (.error (.run fault), m)
    | .ok m =>
      let (result, m) := m.popResult
      (.ok result, m)

end Machine

/-- What happens on the way to a result. -/
inductive Notice where
  | supplied (closer : Symbol)
  | tokenized (count : Nat)
  | parsed (count : Nat)
  | coded (count : Nat)
  | noted (diagnostic : Diagnostic)

namespace Notice

/-- A notice as a line of a log. -/
def text : Notice → List Char
  | supplied closer =>
    "[DEBUG calcvm.lexer] auto-closing unmatched ".toList ++ Text.quoted closer.spelling
  | tokenized count =>
    "[DEBUG calcvm] tokenized ".toList ++ Nat.toDigits 10 count ++ " token(s)".toList
  | parsed count =>
    "[DEBUG calcvm.parser] parsed ".toList ++ Nat.toDigits 10 count ++ " statement(s)".toList
  | coded count =>
    "[DEBUG calcvm.codegen] generated ".toList ++ Nat.toDigits 10 count ++
      " top-level codes".toList
  | noted diagnostic => "[WARNING calcvm.vm] ".toList ++ diagnostic.text

/-- What happens while an expression is given code. -/
def ofExpr [Limits] (e : Expr) : List Notice :=
  match e.toCode with
  | .error _ => []
  | .ok code => [coded code.length]

/-- What happens while tokens become an expression, and that code if it is asked for. -/
def ofTokens [Limits] (coding : Bool) (tokens : List Token) : List Notice :=
  match Expr.ofTokens tokens with
  | .error _ => []
  | .ok e => parsed e.statementCount :: if coding then ofExpr e else []

/-- What happens while a program is read, and given code if that is asked for. -/
def ofSource [Limits] (coding : Bool) (source : String) : List Notice :=
  let scan := Scan.ofCursor (.ofString source)
  match scan.fault with
  | some _ => []
  | none =>
    (Scan.closers (scan.written.map (·.lexeme))).map supplied ++
      tokenized scan.all.length :: ofTokens coding scan.all

end Notice

end Calculator
