import Calculator.Proofs.Code.Append
import Calculator.Proofs.Expr.Printable

/-
  Code that closes the frames that it opens.  `Instr.Closes code n` says that `code` closes `n`
  frames besides those that it opens itself, at every level of nesting; comparisons in it exist, the
  machine knows its instructions, and closures in it have some code.  The code of an expression
  closes no other frames than its own (`Printable.closes`).
-/

namespace Calculator

namespace Instr

/-- How many frames are open after an instruction, of those that the code may close. -/
def opened : Instr → Nat → Option Nat
  | enter, n => some (n + 1)
  | leave, 0 => none
  | leave, n + 1 => some n
  | _, n => some n

mutual
/-- An instruction that is known, and whose code inside closes the frames that it opens. -/
def Scoped : Instr → Prop
  | compare place => (Comparison.ofPlace? place).isSome
  | pushRoutine body => body ≠ [] ∧ Closes body 0
  | skipUnless body => Closes body 0
  | branch consequent alternate => Closes consequent 0 ∧ Closes alternate 0
  | unknown _ => False
  | _ => True
/-- Code that closes the frames that it opens and so many others. -/
def Closes : List Instr → Nat → Prop
  | [], n => n = 0
  | i :: code, n => i.Scoped ∧ ∃ k, i.opened n = some k ∧ Closes code k
end

variable {i : Instr} {code after : List Instr} {n : Nat}

/-- An instruction that opens and closes nothing. -/
theorem Closes.cons (hi : i.Scoped) (hopened : i.opened n = some n) (h : Closes code n) :
    Closes (i :: code) n := by
  unfold Closes
  exact ⟨hi, n, hopened, h⟩

theorem Closes.enter (h : Closes code (n + 1)) : Closes (.enter :: code) n := by
  unfold Closes
  exact ⟨trivial, n + 1, rfl, h⟩

theorem Closes.leave (h : Closes code n) : Closes (.leave :: code) (n + 1) := by
  unfold Closes
  exact ⟨trivial, n, rfl, h⟩

theorem Closes.nil : Closes [] 0 := by
  unfold Closes
  rfl

theorem Closes.append (h : Closes code n) (hafter : Closes after 0) : Closes (code ++ after) n := by
  induction code generalizing n with
  | nil =>
    obtain rfl : n = 0 := h
    exact hafter
  | cons i code ih =>
    obtain ⟨hi, k, hopened, hrest⟩ := h
    exact ⟨hi, k, hopened, ih hrest⟩

theorem Closes.binds (params : List String) (h : Closes code n) :
    Closes (params.map .bind ++ code) n := by
  induction params with
  | nil => exact h
  | cons p params ih => exact .cons trivial rfl ih

theorem Closes.operator (op : Operator) (h : Closes code n) : Closes (op.instr :: code) n := by
  refine .cons ?_ (by cases op <;> rfl) h
  cases op <;> unfold Operator.instr Scoped <;> trivial

theorem Closes.builtin (f : Builtin) (h : Closes code n) : Closes (f.code ++ code) n := by
  cases f with
  | sqrt =>
    refine .cons trivial rfl ?_
    exact .cons trivial rfl h
  | _ => exact .cons trivial rfl h

end Instr

namespace Expr

open Instr

theorem codeOnto_ne_nil {e : Expr} {after : List Instr} (h : after ≠ []) :
    e.codeOnto after ≠ [] := by
  rw [codeOnto_eq]
  exact List.append_ne_nil_of_right_ne_nil _ h

/-- What a program says has some code. -/
theorem Printable.code_ne_nil {e : Expr} (h : e.Printable) : e.code ≠ [] := by
  unfold code
  cases h with
  | literal | reference | block | closure | random => exact List.cons_ne_nil _ _
  | ifThen | ifElse | assign =>
    rw [codeOnto]
    exact codeOnto_ne_nil (List.cons_ne_nil _ _)
  | binary =>
    rw [codeOnto]
    exact codeOnto_ne_nil (codeOnto_ne_nil (List.cons_ne_nil _ _))
  | @builtin f argument =>
    rw [codeOnto]
    exact codeOnto_ne_nil (by cases f <;> exact List.cons_ne_nil _ _)
  | @call name arguments =>
    rw [codeOnto, ← List.nil_append (Instr.load name :: _), codeBackOnto_append]
    exact List.append_ne_nil_of_right_ne_nil _ (List.cons_ne_nil _ _)

theorem codeAllOnto_closes {es : List Expr} {after : List Instr} {n : Nat}
    (hes : ∀ e ∈ es, ∀ {after n}, Closes after n → Closes (e.codeOnto after) n)
    (h : Closes after n) : Closes (codeAllOnto es after) n := by
  induction es with
  | nil => exact h
  | cons e es ih =>
    have hothers := ih fun e he => hes e (List.mem_cons_of_mem _ he)
    exact hes e List.mem_cons_self hothers

/-- The code of an expression closes the frames that it opens, and leaves the others to the code
after it. -/
theorem Printable.codeOnto_closes {e : Expr} (h : e.Printable) {after : List Instr} {n : Nat}
    (hafter : Closes after n) : Closes (e.codeOnto after) n := by
  induction h generalizing after n with
  | literal h => exact .cons trivial rfl hafter
  | reference h => exact .cons trivial rfl hafter
  | random => exact .cons trivial rfl hafter
  | block h ih => exact .enter (codeAllOnto_closes ih (.leave hafter))
  | @closure params body hparams h ih =>
    refine .cons ?_ rfl hafter
    unfold Scoped
    exact ⟨List.append_ne_nil_of_right_ne_nil _ h.code_ne_nil, .binds params (ih .nil)⟩
  | ifThen htest hconsequent ih₁ ih₂ =>
    refine ih₁ (.cons ?_ rfl hafter)
    unfold Scoped
    exact ih₂ .nil
  | ifElse htest hconsequent halternate ih₁ ih₂ ih₃ =>
    refine ih₁ (.cons ?_ rfl hafter)
    unfold Scoped
    exact ⟨ih₂ .nil, ih₃ .nil⟩
  | assign hname h ih => exact ih (.cons trivial rfl hafter)
  | binary hleft hright ih₁ ih₂ => exact ih₁ (ih₂ (.operator _ hafter))
  | builtin h ih => exact ih (.builtin _ hafter)
  | call hname h ih =>
    rw [codeOnto, codeBackOnto_eq]
    refine codeAllOnto_closes (fun e he => ih e (List.mem_reverse.1 he)) (.cons trivial rfl ?_)
    exact .cons trivial rfl hafter

theorem Printable.code_closes {e : Expr} (h : e.Printable) : Closes e.code 0 :=
  h.codeOnto_closes .nil

/-- The code of a program closes every frame that it opens, and no other. -/
theorem PrintableProgram.code_closes {e : Expr} (h : e.PrintableProgram) : Closes e.code 0 := by
  cases h with
  | single h => exact h.code_closes
  | sequence h hlength => exact codeAllOnto_closes (fun e he => (h e he).codeOnto_closes) .nil

end Expr

end Calculator
