import Calculator.Code.OfExpr
import Calculator.Expr.Format
import Calculator.Proofs.Scan.Munch

/-
  Expressions that can be written and read again.  `Printable` is the shape of what a program says:
  names are names, numbers are numbers, nothing is missing, and no sequence stands inside.  `normal`
  is the expression that its text is read as: every product has a sign and no zero has one.  Text
  does not tell the two apart (`formatOnto_normal`).
-/

namespace Calculator

/-- An operator as it is written. -/
def Operator.written : Operator → Operator
  | .juxtaposed => .mul
  | op => op

namespace Operator

@[simp] theorem written_precedence (op : Operator) : op.written.precedence = op.precedence := by
  cases op <;> rfl

@[simp] theorem written_symbol (op : Operator) : op.written.symbol = op.symbol := by
  cases op <;> rfl

@[simp] theorem written_spelling (op : Operator) : op.written.spelling = op.spelling := by
  cases op <;> rfl

@[simp] theorem written_instr (op : Operator) : op.written.instr = op.instr := by
  cases op <;> rfl

theorem precedence_le (op : Operator) : op.precedence ≤ 3 := by
  cases op <;> decide

end Operator

namespace Expr

/-! ## Shape -/

/-- What a program says where an expression is demanded. -/
inductive Printable : Expr → Prop where
  | literal {x : Number} (h : x.IsNumber) : Printable (.literal x)
  | reference {name : String} (h : Scan.IsName name.toList) : Printable (.reference name)
  | block {body : List Expr} (h : ∀ e ∈ body, Printable e) : Printable (.block body)
  | closure {params : List String} {body : Expr} (hparams : ∀ p ∈ params, Scan.IsName p.toList)
      (h : Printable body) : Printable (.closure params body)
  | ifThen {test consequent : Expr} (htest : Printable test) (hconsequent : Printable consequent) :
      Printable (.ifThen test consequent)
  | ifElse {test consequent alternate : Expr} (htest : Printable test)
      (hconsequent : Printable consequent) (halternate : Printable alternate) :
      Printable (.ifElse test consequent alternate)
  | assign {name : String} {value : Expr} (hname : Scan.IsName name.toList) (h : Printable value) :
      Printable (.assign name value)
  | binary {left : Expr} {op : Operator} {right : Expr} (hleft : Printable left)
      (hright : Printable right) : Printable (.binary left op right)
  | random : Printable .random
  | builtin {f : Builtin} {argument : Expr} (h : Printable argument) :
      Printable (.builtin f argument)
  | call {name : String} {arguments : List Expr} (hname : Scan.IsName name.toList)
      (h : ∀ e ∈ arguments, Printable e) : Printable (.call name arguments)

/-- What a whole program says: an expression, or a sequence of some. -/
inductive PrintableProgram : Expr → Prop where
  | single {e : Expr} (h : e.Printable) : PrintableProgram e
  | sequence {body : List Expr} (h : ∀ e ∈ body, e.Printable) (hlength : 2 ≤ body.length) :
      PrintableProgram (.sequence body)

mutual
/-- The expression that the text of an expression is read as. -/
def normal : Expr → Expr
  | literal x => literal (Number.unsignedZero x)
  | reference name => reference name
  | block body => block (normalAll body)
  | sequence body => sequence (normalAll body)
  | closure params body => closure params body.normal
  | ifThen test consequent => ifThen test.normal consequent.normal
  | ifElse test consequent alternate => ifElse test.normal consequent.normal alternate.normal
  | assign name value => assign name value.normal
  | binary left op right => binary left.normal op.written right.normal
  | random => random
  | builtin f argument => builtin f argument.normal
  | call name arguments => call name (normalAll arguments)
  | missing => missing
/-- The expressions that the texts of some expressions are read as. -/
def normalAll : List Expr → List Expr
  | [] => []
  | e :: es => e.normal :: normalAll es
end

theorem normalAll_eq (es : List Expr) : normalAll es = es.map normal := by
  induction es with
  | nil => rfl
  | cons e es ih => rw [normalAll, ih, List.map_cons]

theorem normalAll_reverse (es : List Expr) : (normalAll es).reverse = normalAll es.reverse := by
  rw [normalAll_eq, normalAll_eq, List.map_reverse]

@[simp] theorem normal_isOpenEnded (e : Expr) : e.normal.isOpenEnded = e.isOpenEnded := by
  cases e <;> rfl

@[simp] theorem normal_isBelow (e : Expr) (least : Nat) :
    e.normal.isBelow least = e.isBelow least := by
  cases e <;> simp [normal, isBelow]

@[simp] theorem normal_needsParens (e : Expr) (least : Nat) :
    e.normal.needsParens least = e.needsParens least := by
  simp [needsParens]

/-! ## Text and code of the normal form -/

section NormalText

variable (mode : Mode)

theorem formatAllOnto_normal {es : List Expr} (separator : List Char) (indent : Nat)
    (h : ∀ e ∈ es, ∀ after, e.normal.formatOnto mode indent after = e.formatOnto mode indent after)
    (after : List Char) : formatAllOnto mode indent separator (normalAll es) after =
      formatAllOnto mode indent separator es after := by
  induction es with
  | nil => rfl
  | cons e es ih =>
    rw [normalAll, formatAllOnto, formatAllOnto, ih fun e he => h e (List.mem_cons_of_mem _ he),
      h e List.mem_cons_self]

/-- The normal form of an expression has the text of the expression. -/
theorem Printable.formatOnto_normal {e : Expr} (h : e.Printable) (indent : Nat)
    (after : List Char) : e.normal.formatOnto mode indent after = e.formatOnto mode indent after := by
  have heta {e : Expr} (ih : ∀ indent after, e.normal.formatOnto mode indent after =
      e.formatOnto mode indent after) (indent : Nat) :
      e.normal.formatOnto mode indent = e.formatOnto mode indent := funext (ih indent)
  induction h generalizing indent after with
  | literal h => rw [normal, formatOnto, formatOnto, Number.plain_unsignedZero]
  | reference h => rfl
  | @block body h ih =>
    cases body with
    | nil => rfl
    | cons e es =>
      rw [normal, normalAll, formatOnto, formatOnto, ih e List.mem_cons_self,
        formatAllOnto_normal mode _ _ fun e he => ih e (List.mem_cons_of_mem _ he) _]
  | closure hparams h ih => rw [normal, formatOnto, formatOnto, ih]
  | ifThen htest hconsequent ih₁ ih₂ => rw [normal, formatOnto, formatOnto, ih₁, ih₂]
  | ifElse htest hconsequent halternate ih₁ ih₂ ih₃ =>
    rw [normal, formatOnto, formatOnto, ih₁, heta ih₂, ih₃, normal_needsParens]
  | assign hname h ih => rw [normal, formatOnto, formatOnto, ih]
  | binary hleft hright ih₁ ih₂ =>
    rw [normal, formatOnto, formatOnto, heta ih₁, heta ih₂, normal_needsParens, normal_needsParens,
      Operator.written_precedence, Operator.written_spelling]
  | random => rfl
  | builtin h ih => rw [normal, formatOnto, formatOnto, ih]
  | @call name arguments hname h ih =>
    cases arguments with
    | nil => rfl
    | cons e es =>
      rw [normal, normalAll, formatOnto, formatOnto, ih e List.mem_cons_self,
        formatAllOnto_normal mode _ _ fun e he => ih e (List.mem_cons_of_mem _ he) _]

end NormalText

end Expr

end Calculator
