import Calculator.Expr.Format

/-
  Text put before other text.  The text of an expression comes first and the other text after it
  unchanged (`formatOnto_eq`), whatever the expression is, so that text is put together by `++`
  wherever a proof needs it to be; there is an equation for each kind of expression with parts.
-/

namespace Calculator

namespace Expr

variable (mode : Mode)

theorem parenthesized_append {text : List Char → List Char} {rest : List Char} (needed : Bool)
    (h : ∀ after, text (after ++ rest) = text after ++ rest) (after : List Char) :
    parenthesized needed text (after ++ rest) = parenthesized needed text after ++ rest := by
  cases needed with
  | true => exact congrArg ('(' :: ·) (h (')' :: after))
  | false => exact h after

mutual
/-- What follows the text of an expression is left as it is. -/
theorem formatOnto_append (e : Expr) (indent : Nat) (after rest : List Char) :
    e.formatOnto mode indent (after ++ rest) = e.formatOnto mode indent after ++ rest := by
  cases e with
  | literal | reference => simp only [formatOnto, List.append_assoc]
  | random | missing => rfl
  | block body =>
    cases body with
    | nil => rfl
    | cons e es =>
      simp only [formatOnto, List.cons_append, List.append_assoc]
      rw [← formatOnto_append e, ← formatAllOnto_append es]
      simp only [List.cons_append, List.append_assoc]
  | sequence body =>
    cases body with
    | nil => rfl
    | cons e es => rw [formatOnto, formatOnto, formatAllOnto_append es, formatOnto_append e]
  | closure params body =>
    simp only [formatOnto, formatOnto_append body, List.cons_append, List.append_assoc]
  | ifThen test consequent =>
    simp only [formatOnto, ← formatOnto_append test, List.cons_append, List.append_assoc]
  | ifElse test consequent alternate =>
    simp only [formatOnto, ← formatOnto_append test, formatOnto_append alternate,
      List.cons_append, List.append_assoc]
  | assign name value =>
    simp only [formatOnto, formatOnto_append value, List.cons_append, List.append_assoc]
  | binary left op right =>
    simp only [formatOnto, ← parenthesized_append _ fun after => formatOnto_append left indent after _,
      ← parenthesized_append _ fun after => formatOnto_append right indent after _,
      List.append_assoc]
  | builtin f argument =>
    simp only [formatOnto, ← formatOnto_append argument, List.cons_append, List.append_assoc]
  | call name arguments =>
    cases arguments with
    | nil => simp only [formatOnto, List.cons_append, List.append_assoc]
    | cons e es =>
      simp only [formatOnto, List.cons_append, List.append_assoc]
      rw [← formatOnto_append e, ← formatAllOnto_append es]
      simp only [List.cons_append]
theorem formatAllOnto_append (es : List Expr) (indent : Nat) (separator after rest : List Char) :
    formatAllOnto mode indent separator es (after ++ rest) =
      formatAllOnto mode indent separator es after ++ rest := by
  cases es with
  | nil => rfl
  | cons e es =>
    rw [formatAllOnto, formatAllOnto, formatAllOnto_append es, formatOnto_append e,
      List.append_assoc]
end

/-- The text of an expression comes before the text that follows it. -/
theorem formatOnto_eq (e : Expr) (indent : Nat) (after : List Char) :
    e.formatOnto mode indent after = e.format mode indent ++ after :=
  formatOnto_append mode e indent [] after

/-! ## Texts put together from the texts of the parts -/

/-- A text, in parentheses if need be. -/
def inBrackets (needed : Bool) (text : List Char) : List Char :=
  if needed then '(' :: text ++ [')'] else text

theorem parenthesized_eq (needed : Bool) (e : Expr) (indent : Nat) (after : List Char) :
    parenthesized needed (e.formatOnto mode indent) after =
      inBrackets needed (e.format mode indent) ++ after := by
  cases needed with
  | true => simp [parenthesized, inBrackets, formatOnto_eq]
  | false => exact formatOnto_eq mode e indent after

theorem formatAllOnto_eq (e : Expr) (es : List Expr) (indent : Nat) (separator after : List Char) :
    e.formatOnto mode indent (formatAllOnto mode indent separator es after) =
      List.intercalate separator ((e :: es).map (format mode indent)) ++ after := by
  induction es generalizing e with
  | nil =>
    rw [formatAllOnto, formatOnto_eq]
    simp
  | cons e' es ih =>
    rw [formatAllOnto, ih, formatOnto_eq]
    simp only [List.map_cons, List.intercalate_cons_cons, List.append_assoc]

theorem format_block (e : Expr) (es : List Expr) (indent : Nat) :
    (block (e :: es)).format mode indent = '{' :: mode.opening (indent + 1) ++
      List.intercalate (mode.separator (indent + 1)) ((e :: es).map (format mode (indent + 1))) ++
      mode.closing indent ++ ['}'] := by
  rw [format, formatOnto, formatAllOnto_eq]
  simp only [List.cons_append, List.append_assoc]

theorem format_sequence (body : List Expr) (indent : Nat) :
    (sequence body).format mode indent =
      List.intercalate (mode.separator indent) (body.map (format mode indent)) := by
  cases body with
  | nil => rfl
  | cons e es => rw [format, formatOnto, formatAllOnto_eq, List.append_nil]

theorem format_closure (params : List String) (body : Expr) (indent : Nat) :
    (closure params body).format mode indent =
      '(' :: List.intercalate mode.comma (params.map String.toList) ++
        ')' :: mode.space ++ '=' :: '>' :: mode.space ++ body.format mode indent := rfl

theorem format_ifThen (test consequent : Expr) (indent : Nat) :
    (ifThen test consequent).format mode indent = 'i' :: 'f' :: mode.space ++ '(' ::
      test.format mode indent ++ ')' :: mode.space ++ guarded (consequent.format mode indent) := by
  rw [format, formatOnto, formatOnto_eq]
  simp [format]

theorem format_ifElse (test consequent alternate : Expr) (indent : Nat) :
    (ifElse test consequent alternate).format mode indent = 'i' :: 'f' :: mode.space ++ '(' ::
      test.format mode indent ++ ')' :: mode.space ++
        guarded (inBrackets (consequent.needsParens 0) (consequent.format mode indent)) ++
        ' ' :: Keyword.elseWord.spelling ++ ' ' :: alternate.format mode indent := by
  rw [format, formatOnto, formatOnto_eq, parenthesized_eq]
  simp [format]

theorem format_builtin (f : Builtin) (argument : Expr) (indent : Nat) :
    (builtin f argument).format mode indent =
      f.spelling ++ '(' :: argument.format mode indent ++ [')'] := by
  rw [format, formatOnto, formatOnto_eq]
  simp

theorem format_call (name : String) (arguments : List Expr) (indent : Nat) :
    (call name arguments).format mode indent = name.toList ++ '(' ::
      List.intercalate mode.comma (arguments.map (format mode indent)) ++ [')'] := by
  cases arguments with
  | nil =>
    rw [format, formatOnto]
    simp
  | cons e es =>
    rw [format, formatOnto, formatAllOnto_eq]
    simp

theorem format_assign (name : String) (value : Expr) (indent : Nat) :
    (assign name value).format mode indent = Keyword.letWord.spelling ++ ' ' :: name.toList ++
      mode.space ++ '=' :: mode.space ++ value.format mode indent := rfl

/-- The text of an operation is that of its left operand, its operator and that of its right
operand. -/
theorem format_binary (left : Expr) (op : Operator) (right : Expr) (indent : Nat) :
    (binary left op right).format mode indent =
      inBrackets (left.needsParens op.precedence) (left.format mode indent) ++
        mode.space ++ op.spelling ++ mode.space ++
        inBrackets (right.needsParens (op.precedence + 1)) (right.format mode indent) := by
  rw [format, formatOnto, parenthesized_eq, parenthesized_eq]
  simp only [List.append_nil, List.append_assoc]

end Expr

end Calculator
