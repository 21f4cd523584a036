import Calculator.Code.OfExpr

/-
  Code put before other code.  The code of an expression comes first and the other code after it
  unchanged (`codeOnto_eq`), so that code is put together by `++` wherever a proof needs it to be.
-/

namespace Calculator

namespace Expr

mutual
theorem codeOnto_append (e : Expr) (code after : List Instr) :
    e.codeOnto (code ++ after) = e.codeOnto code ++ after := by
  cases e with
  | literal | reference | closure | random | missing => rfl
  | block body => exact congrArg (Instr.enter :: ·) (codeAllOnto_append body (.leave :: code) after)
  | sequence body => exact codeAllOnto_append body code after
  | ifThen test consequent => exact codeOnto_append test (.skipUnless _ :: code) after
  | ifElse test consequent alternate => exact codeOnto_append test (.branch _ _ :: code) after
  | assign name value => exact codeOnto_append value (.assign name :: code) after
  | binary left op right =>
    rw [codeOnto, codeOnto, ← codeOnto_append left, ← codeOnto_append right, List.cons_append]
  | builtin f argument =>
    rw [codeOnto, codeOnto, ← codeOnto_append argument, List.append_assoc]
  | call name arguments =>
    exact codeBackOnto_append arguments (.load name :: .call :: code) after
theorem codeAllOnto_append (es : List Expr) (code after : List Instr) :
    codeAllOnto es (code ++ after) = codeAllOnto es code ++ after := by
  cases es with
  | nil => rfl
  | cons e es =>
    rw [codeAllOnto, codeAllOnto, codeAllOnto_append es, codeOnto_append e]
theorem codeBackOnto_append (es : List Expr) (code after : List Instr) :
    codeBackOnto es (code ++ after) = codeBackOnto es code ++ after := by
  cases es with
  | nil => rfl
  | cons e es =>
    rw [codeBackOnto, codeBackOnto, codeOnto_append e, codeBackOnto_append es]
end

/-- The code of an expression comes before the code that follows it. -/
theorem codeOnto_eq (e : Expr) (after : List Instr) : e.codeOnto after = e.code ++ after :=
  codeOnto_append e [] after

theorem codeAllOnto_concat (es es' : List Expr) (after : List Instr) :
    codeAllOnto (es ++ es') after = codeAllOnto es (codeAllOnto es' after) := by
  induction es with
  | nil => rfl
  | cons e es ih => rw [List.cons_append, codeAllOnto, codeAllOnto, ih]

/-- The code of some expressions, the last one first, is that of the list turned round. -/
theorem codeBackOnto_eq (es : List Expr) (after : List Instr) :
    codeBackOnto es after = codeAllOnto es.reverse after := by
  induction es generalizing after with
  | nil => rfl
  | cons e es ih =>
    rw [codeBackOnto, ih, List.reverse_cons, codeAllOnto_concat]
    rfl

theorem code_binary (left : Expr) (op : Operator) (right : Expr) :
    (binary left op right).code = left.code ++ (right.code ++ [op.instr]) := by
  rw [code, codeOnto, codeOnto_eq, codeOnto_eq]

theorem code_builtin (f : Builtin) (argument : Expr) :
    (builtin f argument).code = argument.code ++ f.code := by
  rw [code, codeOnto, codeOnto_eq, List.append_nil]

theorem code_assign (name : String) (value : Expr) :
    (assign name value).code = value.code ++ [.assign name] := by
  rw [code, codeOnto, codeOnto_eq]

theorem code_ifThen (test consequent : Expr) :
    (ifThen test consequent).code = test.code ++ [.skipUnless consequent.code] := by
  rw [code, codeOnto, codeOnto_eq]
  rfl

theorem code_ifElse (test consequent alternate : Expr) :
    (ifElse test consequent alternate).code =
      test.code ++ [.branch consequent.code alternate.code] := by
  rw [code, codeOnto, codeOnto_eq]
  rfl

theorem code_block (body : List Expr) :
    (block body).code = .enter :: (codeAllOnto body [] ++ [.leave]) :=
  congrArg (Instr.enter :: ·) (codeAllOnto_append body [] [.leave])

theorem code_call (name : String) (arguments : List Expr) :
    (call name arguments).code = codeAllOnto arguments.reverse [] ++ [.load name, .call] := by
  rw [code, codeOnto, codeBackOnto_eq]
  exact codeAllOnto_append arguments.reverse [] [.load name, .call]

theorem codeAllOnto_last (es : List Expr) (e : Expr) :
    codeAllOnto (es ++ [e]) [] = codeAllOnto es [] ++ e.code := by
  rw [codeAllOnto_concat]
  exact codeAllOnto_append es [] e.code

end Expr

end Calculator
