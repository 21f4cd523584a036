import Calculator.Code
import Calculator.Expr
import Calculator.Limits

/-
  From expressions to code.  The code of an expression leaves its value on the stack: operands come
  before their operator, the left one first; arguments come before the call, the last one first, so
  that the parameters take them in order.  `Expr.codeOnto` puts the code of an expression before
  other code, which makes a chain of operators, however long, a loop.  An expression without
  meaning has no code, and one that nests too deeply is refused.
-/

namespace Calculator

/-- Why an expression has no code. -/
inductive CodeFault where
  /-- An expression is missing. -/
  | missing
  /-- Expressions are nested too deeply. -/
  | tooDeep
deriving DecidableEq

/-- The instruction of an operator. -/
def Operator.instr : Operator → Instr
  | equal => .compare Comparison.equal.place
  | notEqual => .compare Comparison.notEqual.place
  | less => .compare Comparison.less.place
  | lessEqual => .compare Comparison.lessEqual.place
  | greater => .compare Comparison.greater.place
  | greaterEqual => .compare Comparison.greaterEqual.place
  | add => .arithmetic .add
  | sub => .arithmetic .sub
  | mul | juxtaposed => .arithmetic .mul
  | div => .arithmetic .div
  | mod => .arithmetic .mod
  | pow => .arithmetic .pow

/-- The instructions of a function; a square root is a power of one half. -/
def Builtin.code : Builtin → List Instr
  | sin => [.unary .sin]
  | cos => [.unary .cos]
  | sqrt => [.push 0.5, .arithmetic .pow]
  | log => [.unary .log]
  | round => [.unary .round]
  | floor => [.unary .floor]

namespace Expr

mutual
/-- The code of an expression, followed by other code. -/
def codeOnto : Expr → List Instr → List Instr
  | literal value, after => .push value :: after
  | reference name, after => .load name :: after
  | block body, after => .enter :: codeAllOnto body (.leave :: after)
  | sequence body, after => codeAllOnto body after
  | closure params body, after => .pushRoutine (params.map .bind ++ body.codeOnto []) :: after
  | ifThen test consequent, after => test.codeOnto (.skipUnless (consequent.codeOnto []) :: after)
  | ifElse test consequent alternate, after =>
    test.codeOnto (.branch (consequent.codeOnto []) (alternate.codeOnto []) :: after)
  | assign name value, after => value.codeOnto (.assign name :: after)
  | binary left op right, after => left.codeOnto (right.codeOnto (op.instr :: after))
  | random, after => .pushRandom :: after
  | builtin f argument, after => argument.codeOnto (f.code ++ after)
  | call name arguments, after => codeBackOnto arguments (.load name :: .call :: after)
  | missing, after => after
/-- The code of some expressions, followed by other code. -/
def codeAllOnto : List Expr → List Instr → List Instr
  | [], after => after
  | e :: es, after => e.codeOnto (codeAllOnto es after)
/-- The code of some expressions, the last one first, followed by other code. -/
def codeBackOnto : List Expr → List Instr → List Instr
  | [], after => after
  | e :: es, after => codeBackOnto es (e.codeOnto after)
end

/-- The code of an expression. -/
def code (e : Expr) : List Instr := e.codeOnto []

mutual
/-- The first reason why an expression has no code, when it may nest so deep.  A left operand does
not nest. -/
def codeFault? : Nat → Expr → Option CodeFault
  | 0, _ => some .tooDeep
  | _, missing => some .missing
  | depth + 1, block body => codeFaultAll? depth body
  | depth + 1, sequence body => codeFaultAll? depth body
  | depth + 1, closure _ body => codeFault? depth body
  | depth + 1, ifThen test consequent => (codeFault? depth test).or (codeFault? depth consequent)
  | depth + 1, ifElse test consequent alternate =>
    ((codeFault? depth test).or (codeFault? depth consequent)).or (codeFault? depth alternate)
  | depth + 1, assign _ value => codeFault? depth value
  | depth + 1, binary left _ right => (codeFault? (depth + 1) left).or (codeFault? depth right)
  | depth + 1, builtin _ argument => codeFault? depth argument
  | depth + 1, call _ arguments => codeFaultBack? depth arguments
  | _, _ => none
/-- The first reason why some expressions have no code. -/
def codeFaultAll? : Nat → List Expr → Option CodeFault
  | _, [] => none
  | depth, e :: es => (codeFault? depth e).or (codeFaultAll? depth es)
/-- The first reason why some expressions have no code, the last one first. -/
def codeFaultBack? : Nat → List Expr → Option CodeFault
  | _, [] => none
  | depth, e :: es => (codeFaultBack? depth es).or (codeFault? depth e)
end

/-- The code of an expression that has one. -/
def toCode [Limits] (e : Expr) : Except CodeFault (List Instr) :=
  match e.codeFault? Limits.code with
  | some fault => .error fault
  | none => .ok e.code

end Expr

end Calculator
