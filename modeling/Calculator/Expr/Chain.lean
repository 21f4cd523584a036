import Calculator.Expr

/-
  Chains of operands and operators.  A chain is read from left to right and grouped by precedence:
  before an operator is put down, all pending operators of its class or a higher one are applied,
  so operators of one class group to the left and those of a higher class come first.
-/

namespace Calculator

/-- An operand followed by operators with an operand each. -/
structure Chain where
  head : Expr
  tail : List (Operator × Expr)

namespace Chain

/-- Operators that wait for their right operand, the last one first, each with its left operand. -/
abbrev Pending := List (Expr × Operator)

/-- Applies pending operators of at least the given class, and gives those left over. -/
def reduce (least : Nat) : Pending → Expr → Pending × Expr
  | [], right => ([], right)
  | (left, op) :: pending, right =>
    if least ≤ op.precedence then reduce least pending (.binary left op right)
    else ((left, op) :: pending, right)

/-- Groups what is left of a chain. -/
def group : Pending → Expr → List (Operator × Expr) → Expr
  | pending, operand, [] => (reduce 0 pending operand).2
  | pending, operand, (op, next) :: rest =>
    let (pending, left) := reduce op.precedence pending operand
    group ((left, op) :: pending) next rest

/-- The expression that a chain stands for. -/
def toExpr (c : Chain) : Expr := group [] c.head c.tail

end Chain

end Calculator
