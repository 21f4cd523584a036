import Calculator.Token

/-
  Operators between two operands and the functions of one operand.  Operators fall into four
  classes, and all of a class group to the left; a product written without a sign is an operator
  of its own with the class of the written product.
-/

namespace Calculator

/-- The operators between two operands. -/
inductive Operator where
  | equal | notEqual | less | lessEqual | greater | greaterEqual
  | add | sub
  | mul | div
  | pow | mod
  /-- A product written without a sign. -/
  | juxtaposed
deriving DecidableEq, Repr

namespace Operator

/-- The class of an operator; operators of a greater class bind closer. -/
def precedence : Operator → Nat
  | equal | notEqual | less | lessEqual | greater | greaterEqual => 0
  | add | sub => 1
  | mul | div | juxtaposed => 2
  | pow | mod => 3

/-- The symbol that an operator is written with. -/
def symbol : Operator → Symbol
  | equal => .equal
  | notEqual => .notEqual
  | less => .less
  | lessEqual => .lessEqual
  | greater => .greater
  | greaterEqual => .greaterEqual
  | add => .add
  | sub => .sub
  | mul | juxtaposed => .mul
  | div => .div
  | pow => .pow
  | mod => .mod

/-- How an operator is written. -/
def spelling (op : Operator) : List Char := op.symbol.spelling

/-- The operator that a symbol stands for. -/
def ofSymbol? : Symbol → Option Operator
  | .equal => some equal
  | .notEqual => some notEqual
  | .less => some less
  | .lessEqual => some lessEqual
  | .greater => some greater
  | .greaterEqual => some greaterEqual
  | .add => some add
  | .sub => some sub
  | .mul => some mul
  | .div => some div
  | .pow => some pow
  | .mod => some mod
  | _ => none

theorem ofSymbol?_symbol (op : Operator) (h : op ≠ juxtaposed) : ofSymbol? op.symbol = some op := by
  cases op <;> first | rfl | exact absurd rfl h

end Operator

/-- The functions of one operand that have a name of their own. -/
inductive Builtin where
  | sin | cos | sqrt | log | round | floor
deriving DecidableEq, Repr

namespace Builtin

/-- The reserved word of a function. -/
def keyword : Builtin → Keyword
  | sin => .sin
  | cos => .cos
  | sqrt => .sqrt
  | log => .log
  | round => .round
  | floor => .floor

/-- The function that a reserved word stands for. -/
def ofKeyword? : Keyword → Option Builtin
  | .sin => some sin
  | .cos => some cos
  | .sqrt => some sqrt
  | .log => some log
  | .round => some round
  | .floor => some floor
  | _ => none

/-- How a function is written. -/
def spelling (f : Builtin) : List Char := f.keyword.spelling

end Builtin

end Calculator
