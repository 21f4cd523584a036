import Calculator.Code.OfExpr
import Calculator.Expr.Format
import Calculator.Expr.OfTokens
import Calculator.Machine
import Calculator.Token.Scan

/-
  Faults of all stages and their messages.  A message names the stage, the kind of fault and, where
  there is one, the detail.  Two faults have no kind: they come from code or trees that no program
  gives, and are not the user's.
-/

namespace Calculator

/-- Why there is no result. -/
inductive Fault where
  | scan (cause : ScanFault)
  | parse (cause : ParseFault)
  | code (cause : CodeFault)
  | format (cause : FormatFault)
  | run (cause : RunFault)

/-- The kinds of faults that a program can have. -/
inductive FaultKind where
  | unreadable
  | unexpectedToken | remainingTokens | emptyProgram | ambiguousOperand | nestingTooDeep
  | unexpectedNode
  | stackUnderflow | scopeUnderflow | recursionLimit | unexpectedOpcode
deriving DecidableEq, Repr

namespace FaultKind

/-- The name of a kind. -/
def name : FaultKind → String
  | unreadable => "LEXER_ERROR"
  | unexpectedToken => "UNEXPECTED_TOKEN"
  | remainingTokens => "REMAINING_TOKENS"
  | emptyProgram => "EMPTY_PROGRAM"
  | ambiguousOperand => "AMBIGUOUS_OPERAND"
  | nestingTooDeep => "NESTING_TOO_DEEP"
  | unexpectedNode => "UNEXPECTED_AST_NODE"
  | stackUnderflow => "STACK_UNDERFLOW"
  | scopeUnderflow => "SCOPE_UNDERFLOW"
  | recursionLimit => "RECURSION_LIMIT"
  | unexpectedOpcode => "UNEXPECTED_OPCODE"

/-- What a kind says in messages. -/
def text : FaultKind → String
  | unreadable => "could not interpret input tokens"
  | unexpectedToken => "could not compile program"
  | remainingTokens => "failed to compile remaining tokens"
  | emptyProgram => "empty program expression!"
  | ambiguousOperand => "missing operator between operands"
  | nestingTooDeep => "expression is nested too deeply"
  | unexpectedNode => "Unexpected ast node"
  | stackUnderflow => "missing operand"
  | scopeUnderflow => "cannot leave the global scope"
  | recursionLimit => "maximum recursion depth exceeded"
  | unexpectedOpcode => "Unexpected opcode"

end FaultKind

namespace ParseFault

/-- The kind of a fault of reading tokens. -/
def kind : ParseFault → FaultKind
  | unexpected _ | demanded _ _ => .unexpectedToken
  | remaining _ _ => .remainingTokens
  | emptyProgram => .emptyProgram
  | ambiguous _ _ => .ambiguousOperand
  | tooDeep _ => .nestingTooDeep

/-- The token that a fault of reading tokens stands at. -/
def token? : ParseFault → Option Token
  | unexpected found | demanded _ found | tooDeep found => found
  | remaining first _ => some first
  | ambiguous _ right => some right
  | emptyProgram => none

/-- A token in quotes. -/
def quote (text : List Char) : List Char := '\'' :: text ++ ['\'']

/-- What was found in a place: a token or the end. -/
def found (token : Option Token) : List Char :=
  token.elim "end of input".toList fun t => quote t.lexeme.text

/-- What is wrong in detail. -/
def detail : ParseFault → List Char
  | unexpected token => "unexpected ".toList ++ found token
  | demanded (.symbol sign) token =>
    "expect ".toList ++ quote sign.spelling ++ ", but ".toList ++ found token ++ " was given".toList
  | demanded .name token =>
    "expect ".toList ++ quote "ID".toList ++ ", but ".toList ++ found token ++ " was given".toList
  | remaining first others =>
    List.intercalate [' '] ((first :: others).map (·.lexeme.text))
  | ambiguous left right =>
    quote left.lexeme.text ++ " followed by ".toList ++ quote right.lexeme.text
  | emptyProgram | tooDeep _ => []

end ParseFault

namespace RunFault

/-- The kind of a fault of a run; a comparison that does not exist has none. -/
def kind? : RunFault → Option FaultKind
  | missingOperand _ => some .stackUnderflow
  | globalScope => some .scopeUnderflow
  | tooDeep => some .recursionLimit
  | unknown _ => some .unexpectedOpcode
  | noComparison _ => none

/-- What is wrong in detail. -/
def detail : RunFault → List Char
  | missingOperand i => i.text ++ " requires an operand".toList
  | unknown i => i.text
  | globalScope | tooDeep | noComparison _ => []

end RunFault

namespace Fault

/-- The kind of a fault, unless it is not the user's. -/
def kind? : Fault → Option FaultKind
  | scan _ => some .unreadable
  | parse cause => some cause.kind
  | code .missing => some .unexpectedNode
  | code .tooDeep => some .nestingTooDeep
  | format .missing => none
  | format .tooDeep => some .nestingTooDeep
  | run cause => cause.kind?

/-- The name of the stage that a fault comes from. -/
def stage : Fault → String
  | scan _ => "LexerError"
  | parse _ => "ParserError"
  | code _ => "CodeGeneratorError"
  | format .missing => "TypeError"
  | format .tooDeep => "CompileError"
  | run (.noComparison _) => "IndexError"
  | run _ => "VMError"

/-- What is wrong in detail. -/
def detail : Fault → List Char
  | scan cause => "Could not parse: ".toList ++ cause.rest
  | parse cause => cause.detail
  | code .missing => Expr.missing.grouped
  | code .tooDeep | format .tooDeep => []
  | format .missing => "cannot format ".toList ++ Expr.missing.grouped
  | run (.noComparison _) => "list index out of range".toList
  | run cause => cause.detail

/-- The message of a fault. -/
def message (f : Fault) : List Char :=
  match f.kind? with
  | none => f.detail
  | some kind =>
    f.stage.toList ++ ':' :: ' ' :: kind.text.toList ++
      if f.detail.isEmpty then [] else ':' :: ' ' :: f.detail

/-- Where a fault stands in the program. -/
def location? : Fault → Option Location
  | scan cause => some cause.location
  | parse cause => cause.token?.map (·.start)
  | code _ | format _ | run _ => none

/-- Whether a fault comes from running a program. -/
def isOfRun : Fault → Bool
  | run _ => true
  | _ => false

end Fault

end Calculator
