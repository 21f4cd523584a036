import Calculator.Proofs.Code.Append
import Calculator.Proofs.Expr.Printable

/-
  The code of the normal form.  It is the code of the expression with the sign of every zero that is
  pushed dropped (`PrintableProgram.code_normal`), and is the same code when numbers are compared as
  numbers (`PrintableProgram.sameAll_code`).  It is identical to the code of the expression just
  when no number in the expression is the zero with a sign (`PrintableProgram.code_normal_eq_iff`).
-/

namespace Calculator

namespace Instr

/-! ## Sameness -/

theorem sameAll_append {as bs as' bs' : List Instr} (h : sameAll as bs = true)
    (h' : sameAll as' bs' = true) : sameAll (as ++ as') (bs ++ bs') = true := by
  induction as generalizing bs with
  | nil =>
    cases bs with
    | nil => exact h'
    | cons b bs => cases h
  | cons a as ih =>
    cases bs with
    | nil => cases h
    | cons b bs =>
      rw [sameAll, Bool.and_eq_true] at h
      rw [List.cons_append, List.cons_append, sameAll, Bool.and_eq_true]
      exact ⟨h.1, ih h.2⟩

theorem sameAll_binds (params : List String) :
    sameAll (params.map .bind) (params.map .bind) = true := by
  induction params with
  | nil => rfl
  | cons p params ih =>
    rw [List.map_cons, sameAll, Bool.and_eq_true, same]
    exact ⟨beq_self_eq_true p, ih⟩

theorem same_instr (op : Operator) : same op.instr op.instr = true := by
  cases op <;> decide

theorem sameAll_code (f : Builtin) : sameAll f.code f.code = true := by
  cases f <;> decide

/-! ## Zeros without signs -/

mutual
/-- An instruction in which no zero has a sign. -/
def unsigned : Instr → Instr
  | push x => push (Number.unsignedZero x)
  | pushRoutine body => pushRoutine (unsignedAll body)
  | skipUnless body => skipUnless (unsignedAll body)
  | branch consequent alternate => branch (unsignedAll consequent) (unsignedAll alternate)
  | i => i
/-- Code in which no zero has a sign. -/
def unsignedAll : List Instr → List Instr
  | [] => []
  | i :: code => i.unsigned :: unsignedAll code
end

theorem unsignedAll_append (code after : List Instr) :
    unsignedAll (code ++ after) = unsignedAll code ++ unsignedAll after := by
  induction code with
  | nil => rfl
  | cons i code ih => rw [List.cons_append, unsignedAll, unsignedAll, ih, List.cons_append]

theorem unsignedAll_binds (params : List String) :
    unsignedAll (params.map .bind) = params.map .bind := by
  induction params with
  | nil => rfl
  | cons p params ih => exact congrArg (bind p :: ·) ih

theorem unsigned_instr (op : Operator) : op.instr.unsigned = op.instr := by
  cases op <;> rfl

theorem unsignedAll_code (f : Builtin) : unsignedAll f.code = f.code := by
  cases f with
  | sqrt =>
    have hhalf : Number.unsignedZero 0.5 = 0.5 := if_neg (by decide)
    rw [Builtin.code, unsignedAll, unsigned, hhalf]
    rfl
  | _ => rfl

theorem unsignedAll_cons_eq_iff {i : Instr} {code : List Instr} :
    unsignedAll (i :: code) = i :: code ↔ i.unsigned = i ∧ unsignedAll code = code := by
  rw [unsignedAll, List.cons.injEq]

theorem unsignedAll_append_eq_iff {code after : List Instr} (h : unsignedAll code = code) :
    unsignedAll (code ++ after) = code ++ after ↔ unsignedAll after = after := by
  rw [unsignedAll_append, h, List.append_cancel_left_eq]

end Instr

namespace Expr

open Instr

theorem sameAll_codeAllOnto {es : List Expr} (h : ∀ e ∈ es, ∀ {after after' : List Instr},
      sameAll after' after = true → sameAll (e.normal.codeOnto after') (e.codeOnto after) = true)
    {after after' : List Instr} (hafter : sameAll after' after = true) :
    sameAll (codeAllOnto (normalAll es) after') (codeAllOnto es after) = true := by
  induction es with
  | nil => exact hafter
  | cons e es ih =>
    exact h e List.mem_cons_self (ih fun e he => h e (List.mem_cons_of_mem _ he))

/-- The code of the normal form of an expression is the same as the code of the expression. -/
theorem Printable.sameAll_codeOnto {e : Expr} (h : e.Printable) {after after' : List Instr}
    (hafter : sameAll after' after = true) :
    sameAll (e.normal.codeOnto after') (e.codeOnto after) = true := by
  induction h generalizing after after' with
  | literal h =>
    rw [normal, codeOnto, codeOnto, sameAll, Bool.and_eq_true]
    exact ⟨Number.unsignedZero_beq h, hafter⟩
  | @reference name h =>
    rw [normal, codeOnto, codeOnto, sameAll, Bool.and_eq_true]
    exact ⟨beq_self_eq_true name, hafter⟩
  | block h ih => exact sameAll_codeAllOnto ih hafter
  | closure hparams h ih =>
    rw [normal, codeOnto, codeOnto, sameAll, Bool.and_eq_true]
    exact ⟨sameAll_append (sameAll_binds _) (ih rfl), hafter⟩
  | ifThen htest hconsequent ih₁ ih₂ =>
    rw [normal, codeOnto, codeOnto]
    refine ih₁ ?_
    rw [sameAll, Bool.and_eq_true]
    exact ⟨ih₂ rfl, hafter⟩
  | ifElse htest hconsequent halternate ih₁ ih₂ ih₃ =>
    rw [normal, codeOnto, codeOnto]
    refine ih₁ ?_
    rw [sameAll, Bool.and_eq_true, same, Bool.and_eq_true]
    exact ⟨⟨ih₂ rfl, ih₃ rfl⟩, hafter⟩
  | @assign name value hname h ih =>
    rw [normal, codeOnto, codeOnto]
    refine ih ?_
    rw [sameAll, Bool.and_eq_true]
    exact ⟨beq_self_eq_true name, hafter⟩
  | @binary left op right hleft hright ih₁ ih₂ =>
    rw [normal, codeOnto, codeOnto, Operator.written_instr]
    refine ih₁ (ih₂ ?_)
    rw [sameAll, Bool.and_eq_true]
    exact ⟨same_instr op, hafter⟩
  | random => exact hafter
  | builtin h ih =>
    rw [normal, codeOnto, codeOnto]
    exact ih (sameAll_append (sameAll_code _) hafter)
  | @call name arguments hname h ih =>
    rw [normal, codeOnto, codeOnto, codeBackOnto_eq, codeBackOnto_eq, normalAll_reverse]
    refine sameAll_codeAllOnto (fun e he => ih e (List.mem_reverse.1 he)) ?_
    rw [sameAll, Bool.and_eq_true, sameAll, Bool.and_eq_true]
    exact ⟨beq_self_eq_true name, rfl, hafter⟩

theorem codeAllOnto_normal {es : List Expr} (h : ∀ e ∈ es, ∀ after,
      e.normal.codeOnto (unsignedAll after) = unsignedAll (e.codeOnto after))
    (after : List Instr) :
    codeAllOnto (normalAll es) (unsignedAll after) = unsignedAll (codeAllOnto es after) := by
  induction es with
  | nil => rfl
  | cons e es ih =>
    rw [normalAll, codeAllOnto, codeAllOnto, ih fun e he => h e (List.mem_cons_of_mem _ he),
      h e List.mem_cons_self]

/-- The code of the normal form of an expression is the code of the expression in which no zero has
a sign. -/
theorem Printable.codeOnto_normal {e : Expr} (h : e.Printable) (after : List Instr) :
    e.normal.codeOnto (unsignedAll after) = unsignedAll (e.codeOnto after) := by
  induction h generalizing after with
  | literal h => rfl
  | reference h => rfl
  | block h ih =>
    exact congrArg (Instr.enter :: ·) (codeAllOnto_normal ih (.leave :: after))
  | @closure params body hparams h ih =>
    rw [normal, codeOnto, codeOnto, unsignedAll, unsigned, unsignedAll_append, unsignedAll_binds,
      ← ih, unsignedAll]
  | ifThen htest hconsequent ih₁ ih₂ =>
    rw [normal, codeOnto, codeOnto, ← ih₁, unsignedAll, unsigned, ← ih₂, unsignedAll]
  | ifElse htest hconsequent halternate ih₁ ih₂ ih₃ =>
    rw [normal, codeOnto, codeOnto, ← ih₁, unsignedAll, unsigned, ← ih₂, ← ih₃, unsignedAll]
  | assign hname h ih => exact ih (.assign _ :: after)
  | @binary left op right hleft hright ih₁ ih₂ =>
    rw [normal, codeOnto, codeOnto, Operator.written_instr, ← ih₁, ← ih₂, unsignedAll,
      unsigned_instr]
  | random => rfl
  | builtin h ih =>
    rw [normal, codeOnto, codeOnto, ← ih, unsignedAll_append, unsignedAll_code]
  | call hname h ih =>
    rw [normal, codeOnto, codeOnto, codeBackOnto_eq, codeBackOnto_eq, normalAll_reverse,
      ← codeAllOnto_normal fun e he => ih e (List.mem_reverse.1 he)]
    rfl

/-- The code of what a text is read as is the same as the code of what was written. -/
theorem PrintableProgram.sameAll_code {e : Expr} (h : e.PrintableProgram) :
    sameAll e.normal.code e.code = true := by
  cases h with
  | single h => exact h.sameAll_codeOnto rfl
  | sequence h hlength => exact sameAll_codeAllOnto (fun e he => (h e he).sameAll_codeOnto) rfl

/-- The code of what a text is read as is the code of what was written, in which no zero has a
sign. -/
theorem PrintableProgram.code_normal {e : Expr} (h : e.PrintableProgram) :
    e.normal.code = unsignedAll e.code := by
  cases h with
  | single h => exact h.codeOnto_normal []
  | sequence h hlength => exact codeAllOnto_normal (fun e he => (h e he).codeOnto_normal) []

/-! ## Code without zeros that have signs -/

mutual
/-- The numbers in an expression. -/
def literals : Expr → List Number
  | literal value => [value]
  | reference _ | random | missing => []
  | block body | sequence body => literalsAll body
  | closure _ body => body.literals
  | ifThen test consequent => test.literals ++ consequent.literals
  | ifElse test consequent alternate => test.literals ++ (consequent.literals ++ alternate.literals)
  | assign _ value => value.literals
  | binary left _ right => left.literals ++ right.literals
  | builtin _ argument => argument.literals
  | call _ arguments => literalsAll arguments
/-- The numbers in some expressions. -/
def literalsAll : List Expr → List Number
  | [] => []
  | e :: es => e.literals ++ literalsAll es
end

/-- No number among some is the zero with a sign. -/
def Unsigned (xs : List Number) : Prop := ∀ x ∈ xs, ¬ x.IsNegativeZero

theorem unsigned_append {xs ys : List Number} : Unsigned (xs ++ ys) ↔ Unsigned xs ∧ Unsigned ys :=
  List.forall_mem_append

theorem unsigned_nil : Unsigned [] := List.forall_mem_nil _

theorem unsigned_literalsAll {es : List Expr} :
    Unsigned (literalsAll es) ↔ ∀ e ∈ es, Unsigned e.literals := by
  induction es with
  | nil => exact iff_of_true unsigned_nil (List.forall_mem_nil _)
  | cons e es ih => rw [literalsAll, unsigned_append, ih, List.forall_mem_cons]

theorem unsigned_literalsAll_reverse {es : List Expr} :
    Unsigned (literalsAll es.reverse) ↔ Unsigned (literalsAll es) := by
  simp only [unsigned_literalsAll, List.mem_reverse]

theorem codeAllOnto_eq_iff {es : List Expr} (h : ∀ e ∈ es, ∀ after,
      unsignedAll (e.codeOnto after) = e.codeOnto after ↔
        Unsigned e.literals ∧ unsignedAll after = after) (after : List Instr) :
    unsignedAll (codeAllOnto es after) = codeAllOnto es after ↔
      Unsigned (literalsAll es) ∧ unsignedAll after = after := by
  induction es with
  | nil => exact (and_iff_right unsigned_nil).symm
  | cons e es ih =>
    rw [codeAllOnto, literalsAll, unsigned_append, and_assoc, h e List.mem_cons_self,
      ih fun e he => h e (List.mem_cons_of_mem _ he)]

/-- Code before which an expression is put stays as it is when zeros lose their signs, just when
both are without zeros that have signs. -/
theorem Printable.codeOnto_eq_iff {e : Expr} (h : e.Printable) (after : List Instr) :
    unsignedAll (e.codeOnto after) = e.codeOnto after ↔
      Unsigned e.literals ∧ unsignedAll after = after := by
  induction h generalizing after with
  | @literal x h =>
    rw [codeOnto, unsignedAll_cons_eq_iff, unsigned, push.injEq, Number.unsignedZero_eq_self_iff,
      literals, Unsigned, List.forall_mem_singleton]
  | reference h => exact unsignedAll_cons_eq_iff.trans (and_congr_left' (iff_of_true rfl unsigned_nil))
  | block h ih =>
    rw [codeOnto, unsignedAll_cons_eq_iff, codeAllOnto_eq_iff ih, unsignedAll_cons_eq_iff, literals]
    simp [unsigned]
  | @closure params body hparams h ih =>
    rw [codeOnto, unsignedAll_cons_eq_iff, unsigned, pushRoutine.injEq,
      unsignedAll_append_eq_iff (unsignedAll_binds params), ih, literals]
    simp [unsignedAll]
  | ifThen htest hconsequent ih₁ ih₂ =>
    rw [codeOnto, ih₁, unsignedAll_cons_eq_iff, unsigned, skipUnless.injEq, ih₂, literals,
      unsigned_append]
    simp [unsignedAll, and_assoc]
  | ifElse htest hconsequent halternate ih₁ ih₂ ih₃ =>
    rw [codeOnto, ih₁, unsignedAll_cons_eq_iff, unsigned, branch.injEq, ih₂, ih₃, literals,
      unsigned_append, unsigned_append]
    simp [unsignedAll, and_assoc]
  | assign hname h ih =>
    rw [codeOnto, ih, unsignedAll_cons_eq_iff, literals]
    simp [unsigned]
  | @binary left op right hleft hright ih₁ ih₂ =>
    rw [codeOnto, ih₁, ih₂, unsignedAll_cons_eq_iff, literals, unsigned_append, and_assoc]
    simp [unsigned_instr]
  | random => exact unsignedAll_cons_eq_iff.trans (and_congr_left' (iff_of_true rfl unsigned_nil))
  | builtin h ih => rw [codeOnto, ih, unsignedAll_append_eq_iff (unsignedAll_code _), literals]
  | call hname h ih =>
    rw [codeOnto, codeBackOnto_eq, codeAllOnto_eq_iff fun e he => ih e (List.mem_reverse.1 he),
      unsignedAll_cons_eq_iff, unsignedAll_cons_eq_iff, literals, unsigned_literalsAll_reverse]
    simp [unsigned]

/-- The code of what a text is read as is the code of what was written, just when no zero in it has a
sign. -/
theorem PrintableProgram.code_normal_eq_iff {e : Expr} (h : e.PrintableProgram) :
    e.normal.code = e.code ↔ Unsigned e.literals := by
  rw [h.code_normal]
  cases h with
  | single h => exact (h.codeOnto_eq_iff []).trans (and_iff_left rfl)
  | sequence h hlength =>
    exact (codeAllOnto_eq_iff (fun e he => (h e he).codeOnto_eq_iff) []).trans (and_iff_left rfl)

end Expr

end Calculator
