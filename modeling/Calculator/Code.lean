import Calculator.Number.Layout
import Calculator.Number.Arithmetic
import Calculator.Token

/-
  Instructions of the stack machine.  Closures and branches carry their own code.  A comparison is
  coded by its place in a fixed list, counted from the end when negative; a place outside the list
  is a fault of the code that shows when the comparison is listed or executed.
-/

namespace Calculator

/-- The operations on two numbers. -/
inductive Arithmetic where
  | add | sub | mul | div | mod | pow
deriving DecidableEq, Repr

namespace Arithmetic

/-- The name of an operation in listings. -/
def mnemonic : Arithmetic → String
  | add => "ADD"
  | sub => "SUB"
  | mul => "MUL"
  | div => "DIV"
  | mod => "MOD"
  | pow => "POW"

/-- What an operation computes. -/
def apply : Arithmetic → Number → Number → Number
  | add, x, y => x + y
  | sub, x, y => x - y
  | mul, x, y => x * y
  | div, x, y => x / y
  | mod, x, y => Number.remainder x y
  | pow, x, y => Number.power x y

end Arithmetic

/-- The operations on one number. -/
inductive Unary where
  | sin | cos | log | round | floor
deriving DecidableEq, Repr

namespace Unary

/-- The name of an operation in listings. -/
def mnemonic : Unary → String
  | sin => "SIN"
  | cos => "COS"
  | log => "LOG"
  | round => "ROUND"
  | floor => "FLOOR"

/-- What an operation computes. -/
def apply : Unary → Number → Number
  | sin, x => Number.sine x
  | cos, x => Number.cosine x
  | log, x => Number.logarithm x
  | round, x => Number.round x
  | floor, x => Number.floor x

end Unary

/-- The comparisons of two numbers. -/
inductive Comparison where
  | less | lessEqual | equal | notEqual | greater | greaterEqual
deriving DecidableEq, Repr

namespace Comparison

/-- All comparisons, in the order in which they are coded. -/
def all : List Comparison := [less, lessEqual, equal, notEqual, greater, greaterEqual]

/-- The symbol of a comparison. -/
def symbol : Comparison → Symbol
  | less => .less
  | lessEqual => .lessEqual
  | equal => .equal
  | notEqual => .notEqual
  | greater => .greater
  | greaterEqual => .greaterEqual

/-- The place of a comparison in the list. -/
def place : Comparison → Int
  | less => 0
  | lessEqual => 1
  | equal => 2
  | notEqual => 3
  | greater => 4
  | greaterEqual => 5

/-- The comparison at a place, counted from the end when negative. -/
def ofPlace? (place : Int) : Option Comparison :=
  if 0 ≤ place then all[place.toNat]?
  else if 0 ≤ place + all.length then all[(place + all.length).toNat]?
  else none

/-- Whether a comparison holds; all but inequality fail for what is no number. -/
def holds : Comparison → Number → Number → Bool
  | less, x, y => x < y
  | lessEqual, x, y => x ≤ y
  | equal, x, y => x == y
  | notEqual, x, y => x != y
  | greater, x, y => y < x
  | greaterEqual, x, y => y ≤ x

/-- The truth of a comparison as a number. -/
def apply (c : Comparison) (x y : Number) : Number := if c.holds x y then 1 else 0

theorem ofPlace?_place (c : Comparison) : ofPlace? c.place = some c := by
  cases c <;> rfl

end Comparison

/-- The instructions. -/
inductive Instr where
  | push (value : Number)
  | pushRandom
  | load (name : String)
  /-- Takes a value into the innermost scope that knows the name, else into the innermost one. -/
  | assign (name : String)
  /-- Takes a value into the innermost scope. -/
  | bind (name : String)
  | arithmetic (op : Arithmetic)
  | compare (place : Int)
  | unary (op : Unary)
  | pushRoutine (body : List Instr)
  | call
  | skipUnless (body : List Instr)
  | branch (consequent alternate : List Instr)
  | enter
  | leave
  /-- An instruction that the machine does not know. -/
  | unknown (mnemonic : String)

namespace Instr

/-- The place of the first comparison that does not exist, if this is one. -/
def misplaced? : Instr → Option Int
  | compare place => if (Comparison.ofPlace? place).isSome then none else some place
  | _ => none

/-- An instruction as text; code inside is counted only. -/
def text : Instr → List Char
  | push value => "PUSH ".toList ++ Number.text value
  | pushRandom => "PUSH_RANDOM".toList
  | load name => "LOAD_LOCAL ".toList ++ name.toList
  | assign name => "ASSIGN ".toList ++ name.toList
  | bind name => "SHADOW_ASSIGN ".toList ++ name.toList
  | arithmetic op => op.mnemonic.toList
  | compare place =>
    "COMPARE_OP ".toList ++ (toString place).toList ++
      ((Comparison.ofPlace? place).elim [] fun c => ' ' :: '(' :: c.symbol.spelling ++ [')'])
  | unary op => op.mnemonic.toList
  | pushRoutine body => "PUSH_ROUTINE (".toList ++ Nat.toDigits 10 body.length ++ " codes)".toList
  | call => "CALL_ROUTINE".toList
  | skipUnless body => "SKIP_IF_NOT (".toList ++ Nat.toDigits 10 body.length ++ " codes)".toList
  | branch consequent alternate =>
    "IF_ELSE (".toList ++ Nat.toDigits 10 consequent.length ++ " codes, ".toList ++
      Nat.toDigits 10 alternate.length ++ " codes)".toList
  | enter => "ENTER".toList
  | leave => "LEAVE".toList
  | unknown mnemonic => mnemonic.toList

mutual
/-- Whether two instructions do the same; numbers are compared as numbers. -/
def same : Instr → Instr → Bool
  | push a, push b => a == b
  | pushRandom, pushRandom => true
  | load a, load b => a == b
  | assign a, assign b => a == b
  | bind a, bind b => a == b
  | arithmetic a, arithmetic b => a == b
  | compare a, compare b => a == b
  | unary a, unary b => a == b
  | pushRoutine a, pushRoutine b => sameAll a b
  | call, call => true
  | skipUnless a, skipUnless b => sameAll a b
  | branch a c, branch b d => sameAll a b && sameAll c d
  | enter, enter => true
  | leave, leave => true
  | unknown a, unknown b => a == b
  | _, _ => false
/-- Whether two codes do the same, instruction by instruction. -/
def sameAll : List Instr → List Instr → Bool
  | [], [] => true
  | a :: as, b :: bs => same a b && sameAll as bs
  | _, _ => false
end

end Instr

end Calculator
