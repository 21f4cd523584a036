import Calculator.Proofs.Code.Append
import Calculator.Proofs.Machine.Above

/-
  Operations and the values of their operands.  An operand leaves its values on the stack, a block
  one for each of its statements that has one, and an operator takes the last two values there are.
  The right operand gives the right value.  The left value is that of the left operand only where the
  right one leaves nothing else; what it leaves below its value comes first (`execute_binary`,
  `operands_not_independent`).
-/

namespace Calculator

/-- What an operator computes. -/
def Operator.apply : Operator → Number → Number → Number
  | equal => Comparison.equal.apply
  | notEqual => Comparison.notEqual.apply
  | less => Comparison.less.apply
  | lessEqual => Comparison.lessEqual.apply
  | greater => Comparison.greater.apply
  | greaterEqual => Comparison.greaterEqual.apply
  | add => Arithmetic.add.apply
  | sub => Arithmetic.sub.apply
  | mul | juxtaposed => Arithmetic.mul.apply
  | div => Arithmetic.div.apply
  | mod => Arithmetic.mod.apply
  | pow => Arithmetic.pow.apply

/-- The instruction of an operator takes two operands, the right one first. -/
theorem Operator.does (op : Operator) {m : Machine} {right left : Value} {rest : List Value}
    (h : m.operands = right :: left :: rest) : Instr.Does op.instr m
      { m with operands := .number (op.apply left.toNumber right.toNumber) :: rest } := by
  cases op with
  | equal | notEqual | less | lessEqual | greater | greaterEqual =>
    exact .compare h (Comparison.ofPlace?_place _)
  | add | sub | mul | div | mod | pow | juxtaposed => exact .arithmetic h

namespace Machine

open Instr

/-- A machine without operands. -/
def bare (m : Machine) : Machine := { m with operands := [] }

/-- What code does without operands it does on any machine, above the operands there. -/
theorem execute_bare {depth : Nat} {code : List Instr} {m m' : Machine}
    (h : execute depth code m.bare = .ok m') :
    execute depth code m = .ok (m'.above m.operands) :=
  execute_above h m.operands

/-- An operation on the values that its operands leave: the right value is the last that the right
operand leaves, the left one the last before it, of the right operand or else of the left one. -/
theorem execute_binary {depth : Nat} {left right : Expr} {op : Operator} {m m₁ m₂ : Machine}
    {a b : Value} {as bs : List Value}
    (hleft : execute depth left.code m.bare = .ok m₁) (ha : m₁.operands = a :: as)
    (hright : execute depth right.code m₁.bare = .ok m₂) (hb : m₂.operands = b :: bs) :
    ∃ rest, bs ++ a :: as = bs.headD a :: rest ∧
      execute depth (Expr.binary left op right).code m = .ok { m₂ with
        operands := .number (op.apply (bs.headD a).toNumber b.toNumber) :: (rest ++ m.operands) } := by
  obtain ⟨rest, hrest⟩ : ∃ rest, bs ++ a :: as = bs.headD a :: rest := by
    cases bs with
    | nil => exact ⟨as, rfl⟩
    | cons b' bs => exact ⟨bs ++ a :: as, rfl⟩
  refine ⟨rest, hrest, ?_⟩
  -- Both operands run above what lies on the stack already.
  have hleft' := execute_bare hleft
  have hright' := execute_above hright (m₁.operands ++ m.operands)
  have hoperands : (m₂.above (m₁.operands ++ m.operands)).operands =
      b :: bs.headD a :: (rest ++ m.operands) := by
    rw [operands_above hb, ha, ← List.append_assoc, hrest, List.cons_append]
  cases depth with
  | zero => cases hleft
  | succ depth =>
    rw [Expr.code_binary, execute_append, hleft']
    change execute (depth + 1) _ (m₁.bare.above (m₁.operands ++ m.operands)) = _
    rw [execute_append, hright']
    change execute (depth + 1) _ (m₂.above _) = _
    rw [execute_cons, (op.does hoperands).step]
    rfl

/-- A block of two statements as the right operand takes the place of the left one. -/
theorem execute_binary_block : ∃ rest, execute 1
      (Expr.binary (.literal 10) .sub (.block [.literal 1, .literal 2])).code (.new 0) =
        .ok { Machine.new 0 with operands := .number (1 - 2) :: rest } := by
  obtain ⟨rest, -, h⟩ := @execute_binary 1 (.literal 10) (.block [.literal 1, .literal 2]) .sub
    (.new 0) _ _ _ _ _ _ rfl rfl rfl rfl
  exact ⟨_, h⟩

/-- It is not so that the values of an operation are the last ones that its operands leave. -/
theorem operands_not_independent : ¬ ∀ (depth : Nat) (left right : Expr) (op : Operator)
    (m m₁ m₂ : Machine) (a b : Value) (as bs : List Value),
    execute depth left.code m.bare = .ok m₁ → m₁.operands = a :: as →
    execute depth right.code m₁.bare = .ok m₂ → m₂.operands = b :: bs →
    ∃ m' rest, execute depth (Expr.binary left op right).code m = .ok m' ∧
      m'.operands = .number (op.apply a.toNumber b.toNumber) :: rest := by
  intro h
  obtain ⟨m', rest, hrun, htop⟩ := h 1 (.literal 10) (.block [.literal 1, .literal 2]) .sub (.new 0)
    _ _ (.number 10) (.number 2) [] [.number 1] rfl rfl rfl rfl
  have hm' : ({ Machine.new 0 with operands := [.number (1 - 2), .number 10] } : Machine) = m' :=
    Except.ok.inj hrun
  rw [← hm', List.cons.injEq, Value.number.injEq] at htop
  exact absurd htop.1 (show ¬ (1 - 2 : Number) = 10 - 2 by decide)

end Machine

end Calculator
