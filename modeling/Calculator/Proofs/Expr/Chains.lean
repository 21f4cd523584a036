import Calculator.Proofs.Code.Chains
import Calculator.Proofs.Expr.Append

/-
  Text of operator chains.  A formatter that walks down the left operands as long as they need no
  parentheses, and then goes through the operations on the way in a loop, gives the same text as one
  that follows the structure of the expression, and fails in the same places (`write_iff`).  With
  the generator of `Code.Chains` this makes the loops over chains structural recursion
  (`chains_structural`).
-/

namespace Calculator

namespace Expr

/-- The text of an expression that may nest so deep. -/
def textWithin (mode : Mode) (depth indent : Nat) (e : Expr) : Except FormatFault (List Char) :=
  answer (e.formatFault? depth) (e.format mode indent)

theorem toText_eq [Limits] (mode : Mode) (e : Expr) :
    e.toText mode = textWithin mode Limits.text 0 e := by
  rw [toText, textWithin]
  cases e.formatFault? Limits.text <;> rfl

/-- What gives text to an expression that may nest so deep, at an indentation. -/
abbrev Formatter := Nat → Nat → Expr → Except FormatFault (List Char)

/-- The text of an operand of an operator that takes at least the given class. -/
def formatOperand (write : Formatter) (depth indent least : Nat) (e : Expr) :
    Except FormatFault (List Char) :=
  return inBrackets (e.needsParens least) (← write depth indent e)

/-- The text of a left operand, which nests only if it is put in parentheses. -/
def formatLeft (write : Formatter) (depth indent least : Nat) (e : Expr) :
    Except FormatFault (List Char) :=
  formatOperand write (if e.needsParens least then depth else depth + 1) indent least e

/-- An operation of a class that is not too low is a left operand as it is. -/
theorem formatLeft_binary (write : Formatter) (depth indent : Nat) {least : Nat} (left : Expr)
    {op : Operator} (right : Expr) (h : least ≤ op.precedence) :
    formatLeft write depth indent least (binary left op right) =
      write (depth + 1) indent (binary left op right) := by
  have hparens : (binary left op right).needsParens least = false := by
    simp [needsParens, isOpenEnded, isBelow, h]
  rw [formatLeft, formatOperand, hparens]
  exact bind_pure _

/-- The text of an operation is put together from the texts of its operands. -/
theorem textWithin_binary (mode : Mode) (depth indent : Nat) (left : Expr) (op : Operator)
    (right : Expr) : textWithin mode (depth + 1) indent (binary left op right) = do
      let first ← formatLeft (textWithin mode) depth indent op.precedence left
      let second ← formatOperand (textWithin mode) depth indent (op.precedence + 1) right
      return first ++ mode.space ++ op.spelling ++ mode.space ++ second := by
  simp only [formatLeft, formatOperand, textWithin, answer_map, answer_bind, format_binary,
    formatFault?]

/-! ## A formatter with a loop -/

/-- Walks down the left operands as long as they are operations of at least the class of the
operator above them, which is given first.  The operations on the way come before the given ones,
the last one first, and the class that the head must have comes with them. -/
def openChain : Nat → Expr → List (Operator × Expr) → Nat × Chain
  | least, binary left op right, links =>
    if least ≤ op.precedence then openChain op.precedence left ((op, right) :: links)
    else (least, ⟨binary left op right, links⟩)
  | least, e, links => (least, ⟨e, links⟩)

/-- Puts the texts of some operands after other text, each after its operator. -/
def formatLinks (mode : Mode) (write : Formatter) (depth indent : Nat)
    (links : List (Operator × Expr)) (text : List Char) : Except FormatFault (List Char) :=
  links.foldlM (fun text (op, right) =>
    return text ++ mode.space ++ op.spelling ++ mode.space ++
      (← formatOperand write depth indent (op.precedence + 1) right)) text

/-- The text of a chain whose head must have at least the given class. -/
def formatChain (mode : Mode) (write : Formatter) (depth indent : Nat) :
    Nat × Chain → Except FormatFault (List Char)
  | (least, c) => do
    formatLinks mode write depth indent c.tail (← formatLeft write depth indent least c.head)

/-- The text of an expression, given how to write the expressions in it. -/
def formatStep (mode : Mode) (write : Formatter) : Formatter
  | 0, _, _ => throw .tooDeep
  | _ + 1, _, literal value => return Number.plain value
  | _ + 1, _, reference name => return name.toList
  | depth + 1, indent, sequence body =>
    return List.intercalate (mode.separator indent) (← body.mapM (write depth indent))
  | _ + 1, _, block [] => return ['{', '}']
  | depth + 1, indent, block (e :: es) =>
    return '{' :: mode.opening (indent + 1) ++
      List.intercalate (mode.separator (indent + 1))
        (← (e :: es).mapM (write depth (indent + 1))) ++ mode.closing indent ++ ['}']
  | depth + 1, indent, closure params body =>
    return '(' :: List.intercalate mode.comma (params.map String.toList) ++
      ')' :: mode.space ++ '=' :: '>' :: mode.space ++ (← write depth indent body)
  | depth + 1, indent, ifElse test consequent alternate => do
    let consequent ← formatOperand write depth indent 0 consequent
    let test ← write depth indent test
    let alternate ← write depth indent alternate
    return 'i' :: 'f' :: mode.space ++ '(' :: test ++ ')' :: mode.space ++ guarded consequent ++
      ' ' :: Keyword.elseWord.spelling ++ ' ' :: alternate
  | depth + 1, indent, ifThen test consequent => do
    let consequent ← write depth indent consequent
    let test ← write depth indent test
    return 'i' :: 'f' :: mode.space ++ '(' :: test ++ ')' :: mode.space ++ guarded consequent
  | depth + 1, indent, assign name value =>
    return Keyword.letWord.spelling ++ ' ' :: name.toList ++ mode.space ++ '=' :: mode.space ++
      (← write depth indent value)
  | depth + 1, indent, binary left op right =>
    formatChain mode write depth indent (openChain 0 (binary left op right) [])
  | _ + 1, _, random => return Keyword.rand.spelling ++ ['(', ')']
  | depth + 1, indent, builtin f argument =>
    return f.spelling ++ '(' :: (← write depth indent argument) ++ [')']
  | depth + 1, indent, call name arguments =>
    return name.toList ++ '(' ::
      List.intercalate mode.comma (← arguments.mapM (write depth indent)) ++ [')']
  | _ + 1, _, missing => throw .missing

/-- Whether a formatter gives an expression its text. -/
def Writes (mode : Mode) (write : Formatter) (e : Expr) : Prop :=
  ∀ depth indent, write depth indent e = textWithin mode depth indent e

section Step

variable {mode : Mode} {write : Formatter}

theorem mapM_eq {es : List Expr} (h : ∀ e ∈ es, Writes mode write e) (depth indent : Nat) :
    es.mapM (write depth indent) =
      answer (formatFaultAll? depth es) (es.map (format mode indent)) := by
  induction es with
  | nil => rfl
  | cons e es ih =>
    rw [List.mapM_cons, h e List.mem_cons_self, ih fun e he => h e (List.mem_cons_of_mem _ he)]
    simp only [textWithin, answer_map, answer_bind]
    rfl

theorem formatOperand_eq {e : Expr} (h : Writes mode write e) (depth indent least : Nat) :
    formatOperand write depth indent least e =
      formatOperand (textWithin mode) depth indent least e := by
  simp only [formatOperand, h depth indent]

theorem formatLinks_cons (depth indent : Nat) (op : Operator) {right : Expr}
    (h : Writes mode write right) (links : List (Operator × Expr)) :
    formatLinks mode write depth indent ((op, right) :: links) = fun text =>
      formatOperand (textWithin mode) depth indent (op.precedence + 1) right >>= fun second =>
        formatLinks mode write depth indent links
          (text ++ mode.space ++ op.spelling ++ mode.space ++ second) := by
  funext text
  simp only [formatLinks, List.foldlM_cons, formatOperand_eq h, bind_assoc, pure_bind]

/-- Walking down from an operand before a chain gives its text before that of the chain. -/
theorem formatChain_openChain (depth indent least : Nat) (e : Expr)
    (links : List (Operator × Expr)) (h : ∀ e', sizeOf e' ≤ sizeOf e → Writes mode write e') :
    formatChain mode write depth indent (openChain least e links) =
      formatLeft (textWithin mode) depth indent least e >>=
        formatLinks mode write depth indent links := by
  -- The walk changes the class at each operation and puts what it passes before the links.
  induction least, e, links using openChain.induct with
  | case1 least left op right links hclass ih =>
    have hright : Writes mode write right := h right (by simp +arith)
    have hleft : ∀ e', sizeOf e' ≤ sizeOf left → Writes mode write e' :=
      fun e' he' => h e' (by simp +arith; omega)
    rw [openChain, if_pos hclass, ih hleft, formatLeft_binary _ _ _ _ _ hclass, textWithin_binary,
      formatLinks_cons depth indent op hright]
    simp only [bind_assoc, pure_bind]
  | case2 least left op right links hclass =>
    rw [openChain, if_neg hclass, formatChain, formatLeft, formatOperand_eq (h _ (Nat.le_refl _))]
    rfl
  | case3 least e links hleaf =>
    rw [openChain, formatChain, formatLeft, formatOperand_eq (h _ (Nat.le_refl _))]
    · rfl
    · exact hleaf

/-- A formatter that is right about all smaller expressions takes a right step. -/
theorem formatStep_eq {e : Expr} (h : ∀ e', sizeOf e' < sizeOf e → Writes mode write e')
    (depth indent : Nat) :
    formatStep mode write depth indent e = textWithin mode depth indent e := by
  cases depth with
  | zero =>
    rw [formatStep, textWithin, formatFault?]
    rfl
  | succ depth =>
    cases e with
    | literal value =>
      rw [formatStep, textWithin, format, formatOnto, List.append_nil]
      rfl
    | reference name =>
      rw [formatStep, textWithin, format, formatOnto, List.append_nil]
      rfl
    | random | missing => rfl
    | block body =>
      have hbody (e : Expr) (he : e ∈ body) : Writes mode write e := by
        have hsize := List.sizeOf_lt_of_mem he
        exact h e (by simp +arith; omega)
      cases body with
      | nil => rfl
      | cons e es =>
        simp only [formatStep, mapM_eq hbody, answer_map, textWithin, formatFault?, format_block]
    | sequence body =>
      have hbody (e : Expr) (he : e ∈ body) : Writes mode write e := by
        have hsize := List.sizeOf_lt_of_mem he
        exact h e (by simp +arith; omega)
      simp only [formatStep, mapM_eq hbody, answer_map, textWithin, formatFault?, format_sequence]
    | closure params body =>
      have hbody := h body (by simp +arith) depth indent
      simp only [formatStep, hbody, textWithin, answer_map, formatFault?, format_closure]
    | ifThen test consequent =>
      have htest := h test (by simp +arith) depth indent
      have hconsequent := h consequent (by simp +arith) depth indent
      simp only [formatStep, htest, hconsequent, textWithin, answer_map, answer_bind,
        format_ifThen, formatFault?]
    | ifElse test consequent alternate =>
      have htest := h test (by simp +arith) depth indent
      have hconsequent := h consequent (by simp +arith) depth indent
      have halternate := h alternate (by simp +arith) depth indent
      simp only [formatStep, formatOperand, htest, hconsequent, halternate, textWithin,
        answer_map, answer_bind, format_ifElse, formatFault?, Option.or_assoc]
    | assign name value =>
      have hvalue := h value (by simp +arith) depth indent
      simp only [formatStep, hvalue, textWithin, answer_map, format_assign, formatFault?]
    | binary left op right =>
      have hright : Writes mode write right := h right (by simp +arith)
      have hleft : ∀ e', sizeOf e' ≤ sizeOf left → Writes mode write e' :=
        fun e' he' => h e' (by simp +arith; omega)
      rw [formatStep, openChain, if_pos (Nat.zero_le _),
        formatChain_openChain depth indent _ left _ hleft, textWithin_binary,
        formatLinks_cons depth indent op hright]
      rfl
    | builtin f argument =>
      have hargument := h argument (by simp +arith) depth indent
      simp only [formatStep, hargument, textWithin, answer_map, format_builtin, formatFault?]
    | call name arguments =>
      have harguments (e : Expr) (he : e ∈ arguments) : Writes mode write e := by
        have hsize := List.sizeOf_lt_of_mem he
        exact h e (by simp +arith; omega)
      simp only [formatStep, mapM_eq harguments, answer_map, textWithin, formatFault?, format_call]

/-- The formatter that goes through chains in a loop gives the text of each expression. -/
theorem write_iff (mode : Mode) (write : Formatter) :
    (∀ depth indent e, write depth indent e = formatStep mode write depth indent e) ↔
      write = textWithin mode := by
  constructor
  · intro h
    have hall (e : Expr) : Writes mode write e := by
      induction hsize : sizeOf e using Nat.strongRecOn generalizing e with
      | ind n ih =>
        subst hsize
        intro depth indent
        rw [h, formatStep_eq fun e' he' => ih _ he' e' rfl]
    funext depth indent e
    exact hall e depth indent
  · rintro rfl depth indent e
    exact (formatStep_eq (fun _ _ _ _ => rfl) depth indent).symm

end Step

/-! ## Chains and structure -/

/-- An operand needs parentheses just when it takes in what follows it, or is an operation of a
lower class. -/
theorem needsParens_iff (least : Nat) (e : Expr) : e.needsParens least = true ↔
    (∃ name value, e = assign name value) ∨ (∃ test consequent, e = ifThen test consequent) ∨
      (∃ test consequent alternate, e = ifElse test consequent alternate) ∨
      (∃ params body, e = closure params body) ∨
      ∃ left op right, e = binary left op right ∧ op.precedence < least := by
  cases e with
  | binary left op right =>
    simp only [needsParens, isOpenEnded, isBelow, Bool.false_or, decide_eq_true_eq, reduceCtorEq,
      exists_false, false_or]
    constructor
    · intro hclass
      exact ⟨left, op, right, rfl, hclass⟩
    · rintro ⟨_, _, _, heq, hclass⟩
      cases heq
      exact hclass
  | _ => simp [needsParens, isOpenEnded, isBelow]

/-- The loops over operator chains are structural recursion. -/
structure ChainsStructural : Prop where
  /-- What goes through chains in a loop generates the code of every expression. -/
  generates (generate : Generator) :
    (∀ depth e, generate depth e = generateStep generate depth e) ↔ generate = codeWithin
  /-- The code of an operation is that of its left operand, that of its right operand and the
  instruction of its operator; it is refused for the first reason in that order. -/
  generated (depth : Nat) (left : Expr) (op : Operator) (right : Expr) :
    codeWithin (depth + 1) (binary left op right) = do
      let first ← codeWithin (depth + 1) left
      let second ← codeWithin depth right
      return first ++ second ++ [op.instr]
  /-- So it is however deep the expression nests. -/
  code (left : Expr) (op : Operator) (right : Expr) :
    (binary left op right).code = left.code ++ (right.code ++ [op.instr])
  /-- What goes through chains in a loop writes the text of every expression. -/
  writes (mode : Mode) (write : Formatter) :
    (∀ depth indent e, write depth indent e = formatStep mode write depth indent e) ↔
      write = textWithin mode
  /-- The text of an operation is that of its left operand, its operator and that of its right
  operand; it is refused for the first reason in that order. -/
  written (mode : Mode) (depth indent : Nat) (left : Expr) (op : Operator) (right : Expr) :
    textWithin mode (depth + 1) indent (binary left op right) = do
      let first ← formatLeft (textWithin mode) depth indent op.precedence left
      let second ← formatOperand (textWithin mode) depth indent (op.precedence + 1) right
      return first ++ mode.space ++ op.spelling ++ mode.space ++ second
  /-- So it is however deep the expression nests. -/
  text (mode : Mode) (indent : Nat) (left : Expr) (op : Operator) (right : Expr) :
    (binary left op right).format mode indent =
      inBrackets (left.needsParens op.precedence) (left.format mode indent) ++
        mode.space ++ op.spelling ++ mode.space ++
        inBrackets (right.needsParens (op.precedence + 1)) (right.format mode indent)
  /-- Parentheses stand around assignments, conditions, closures and operations of a lower class,
  and around nothing else. -/
  parens (least : Nat) (e : Expr) : e.needsParens least = true ↔
    (∃ name value, e = assign name value) ∨ (∃ test consequent, e = ifThen test consequent) ∨
      (∃ test consequent alternate, e = ifElse test consequent alternate) ∨
      (∃ params body, e = closure params body) ∨
      ∃ left op right, e = binary left op right ∧ op.precedence < least
  /-- Programs get their code and their text from these. -/
  programs [Limits] (e : Expr) (mode : Mode) : e.toCode = codeWithin Limits.code e ∧
    e.toText mode = textWithin mode Limits.text 0 e

theorem chains_structural : ChainsStructural where
  generates := generate_iff
  generated := codeWithin_binary
  code := code_binary
  writes := write_iff
  written := textWithin_binary
  text mode indent left op right := format_binary mode left op right indent
  parens := needsParens_iff
  programs e mode := ⟨toCode_eq e, toText_eq mode e⟩

end Expr

end Calculator
