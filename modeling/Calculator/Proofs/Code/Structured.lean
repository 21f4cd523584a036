import Calculator.Proofs.Code.Append

/-
  The structure of code.  Code that expressions are given opens a frame only around other such code,
  and closes it right after that; so the frames that were open before are never closed in between,
  which counting frames alone does not tell (`Expr.code_structured`).
-/

namespace Calculator

namespace Instr

/-- An instruction without code inside that opens and closes no frame. -/
def Simple : Instr → Prop
  | pushRoutine _ | skipUnless _ | branch _ _ | enter | leave => False
  | _ => True

/-- Code in which every frame is opened and closed around code like it. -/
inductive Structured : List Instr → Prop where
  | nil : Structured []
  | simple {i : Instr} (h : i.Simple) : Structured [i]
  | append {code after : List Instr} (h : Structured code) (hafter : Structured after) :
      Structured (code ++ after)
  | routine {body : List Instr} (h : Structured body) : Structured [.pushRoutine body]
  | skipUnless {body : List Instr} (h : Structured body) : Structured [.skipUnless body]
  | branch {consequent alternate : List Instr} (hconsequent : Structured consequent)
      (halternate : Structured alternate) : Structured [.branch consequent alternate]
  | block {code : List Instr} (h : Structured code) : Structured (.enter :: (code ++ [.leave]))

theorem Structured.cons {i : Instr} {code : List Instr} (hi : i.Simple) (h : Structured code) :
    Structured (i :: code) := .append (.simple hi) h

theorem Structured.binds (params : List String) : Structured (params.map .bind) := by
  induction params with
  | nil => exact .nil
  | cons name params ih => exact .cons trivial ih

theorem Structured.operator (op : Operator) : Structured [op.instr] :=
  .simple (by cases op <;> trivial)

theorem Structured.builtin (f : Builtin) : Structured f.code := by
  cases f with
  | sqrt => exact .cons trivial (.simple trivial)
  | _ => exact .simple trivial

end Instr

namespace Expr

open Instr

theorem codeAllOnto_structured {es : List Expr} (h : ∀ e ∈ es, Structured e.code) :
    Structured (codeAllOnto es []) := by
  induction es with
  | nil => exact .nil
  | cons e es ih =>
    rw [codeAllOnto, codeOnto_eq]
    exact .append (h e List.mem_cons_self) (ih fun e he => h e (List.mem_cons_of_mem _ he))

mutual
/-- The code of an expression is structured, whatever the expression is. -/
theorem code_structured (e : Expr) : Structured e.code := by
  cases e with
  | literal | reference | random => exact .simple trivial
  | missing => exact .nil
  | block body =>
    rw [code_block]
    exact .block (codeAllOnto_structured (all_structured body))
  | sequence body => exact codeAllOnto_structured (all_structured body)
  | closure params body => exact .routine (.append (.binds params) body.code_structured)
  | ifThen test consequent =>
    rw [code_ifThen]
    exact .append test.code_structured (.skipUnless consequent.code_structured)
  | ifElse test consequent alternate =>
    rw [code_ifElse]
    exact .append test.code_structured
      (.branch consequent.code_structured alternate.code_structured)
  | assign name value =>
    rw [code_assign]
    exact .append value.code_structured (.simple trivial)
  | binary left op right =>
    rw [code_binary]
    exact .append left.code_structured (.append right.code_structured (.operator op))
  | builtin f argument =>
    rw [code_builtin]
    exact .append argument.code_structured (.builtin f)
  | call name arguments =>
    have harguments := codeAllOnto_structured fun e he =>
      all_structured arguments e (List.mem_reverse.1 he)
    rw [code_call]
    exact .append harguments (.cons trivial (.simple trivial))
theorem all_structured (es : List Expr) : ∀ e ∈ es, Structured e.code := by
  cases es with
  | nil => exact List.forall_mem_nil _
  | cons e es => exact List.forall_mem_cons.2 ⟨e.code_structured, all_structured es⟩
end

end Expr

end Calculator
