import Calculator.Expr.Chain
import Calculator.Proofs.Bind
import Calculator.Proofs.Code.Append

/-
  Code of operator chains.  A generator that walks down the left operands, and then goes through the
  operations on the way in a loop, gives the same code as one that follows the structure of the
  expression, and fails in the same places (`generate_iff`); so does one whose code of an operation
  is put together from the codes of its operands (`codeWithin_binary`).
-/

namespace Calculator

namespace Expr

/-- The code of an expression that may nest so deep. -/
def codeWithin (depth : Nat) (e : Expr) : Except CodeFault (List Instr) :=
  answer (e.codeFault? depth) e.code

theorem toCode_eq [Limits] (e : Expr) : e.toCode = codeWithin Limits.code e := by
  rw [toCode, codeWithin]
  cases e.codeFault? Limits.code <;> rfl

theorem codeFaultAll?_append (depth : Nat) (es es' : List Expr) :
    codeFaultAll? depth (es ++ es') = (codeFaultAll? depth es).or (codeFaultAll? depth es') := by
  induction es with
  | nil => rfl
  | cons e es ih => rw [List.cons_append, codeFaultAll?, codeFaultAll?, ih, Option.or_assoc]

theorem codeFaultBack?_eq (depth : Nat) (es : List Expr) :
    codeFaultBack? depth es = codeFaultAll? depth es.reverse := by
  induction es with
  | nil => rfl
  | cons e es ih =>
    rw [codeFaultBack?, ih, List.reverse_cons, codeFaultAll?_append, codeFaultAll?, codeFaultAll?,
      Option.or_none]

/-- The code of an operation is that of its left operand, that of its right operand and the
instruction of its operator. -/
theorem codeWithin_binary (depth : Nat) (left : Expr) (op : Operator) (right : Expr) :
    codeWithin (depth + 1) (binary left op right) = do
      let first ← codeWithin (depth + 1) left
      let second ← codeWithin depth right
      return first ++ second ++ [op.instr] := by
  simp only [codeWithin, answer_map, answer_bind, code_binary, codeFault?, List.append_assoc]

/-! ## A generator with a loop -/

/-- What gives code to an expression that may nest so deep. -/
abbrev Generator := Nat → Expr → Except CodeFault (List Instr)

/-- Walks down the left operands to the first one that is no operation.  The operations on the way
come before the given ones, the last one first. -/
def leftChain : Expr → List (Operator × Expr) → Chain
  | binary left op right, links => leftChain left ((op, right) :: links)
  | e, links => ⟨e, links⟩

/-- Puts the codes of some expressions after other code. -/
def generateAll (generate : Expr → Except CodeFault (List Instr)) (es : List Expr)
    (code : List Instr) : Except CodeFault (List Instr) :=
  es.foldlM (fun code e => return code ++ (← generate e)) code

/-- Puts the codes of some operands after other code, each with the instruction of its operator. -/
def generateLinks (generate : Expr → Except CodeFault (List Instr))
    (links : List (Operator × Expr)) (code : List Instr) : Except CodeFault (List Instr) :=
  links.foldlM (fun code (op, right) => return code ++ (← generate right) ++ [op.instr]) code

/-- The code of a chain. -/
def generateChain (generate : Generator) (depth : Nat) (c : Chain) :
    Except CodeFault (List Instr) := do
  generateLinks (generate depth) c.tail (← generate (depth + 1) c.head)

/-- The code of an expression, given how to generate that of the expressions in it.  What is
nested in it comes in the order in which it is generated. -/
def generateStep (generate : Generator) : Generator
  | 0, _ => throw .tooDeep
  | _ + 1, literal value => return [.push value]
  | _ + 1, reference name => return [.load name]
  | depth + 1, sequence body => generateAll (generate depth) body []
  | depth + 1, block body => return (← generateAll (generate depth) body [.enter]) ++ [.leave]
  | depth + 1, closure params body =>
    return [.pushRoutine (params.map .bind ++ (← generate depth body))]
  | depth + 1, ifElse test consequent alternate => do
    let code ← generate depth test
    let consequent ← generate depth consequent
    let alternate ← generate depth alternate
    return code ++ [.branch consequent alternate]
  | depth + 1, ifThen test consequent => do
    let code ← generate depth test
    let consequent ← generate depth consequent
    return code ++ [.skipUnless consequent]
  | depth + 1, assign name value => return (← generate depth value) ++ [.assign name]
  | depth + 1, binary left op right =>
    generateChain generate depth (leftChain (binary left op right) [])
  | _ + 1, random => return [.pushRandom]
  | depth + 1, builtin f argument => return (← generate depth argument) ++ f.code
  | depth + 1, call name arguments =>
    return (← generateAll (generate depth) arguments.reverse []) ++ [.load name, .call]
  | _ + 1, missing => throw .missing

/-- Whether a generator gives an expression its code. -/
def Generates (generate : Generator) (e : Expr) : Prop :=
  ∀ depth, generate depth e = codeWithin depth e

section Step

variable {generate : Generator}

theorem generateAll_eq {es : List Expr} (h : ∀ e ∈ es, Generates generate e) (depth : Nat)
    (code : List Instr) : generateAll (generate depth) es code =
      answer (codeFaultAll? depth es) (code ++ codeAllOnto es []) := by
  induction es generalizing code with
  | nil =>
    rw [codeAllOnto, List.append_nil]
    rfl
  | cons e es ih =>
    have hrest (code : List Instr) : es.foldlM _ code = _ :=
      ih (fun e he => h e (List.mem_cons_of_mem _ he)) code
    have hcode : codeAllOnto (e :: es) [] = e.code ++ codeAllOnto es [] := codeOnto_eq e _
    rw [generateAll, List.foldlM_cons, h e List.mem_cons_self, codeWithin, answer_map]
    simp only [hrest, hcode, answer_bind, List.append_assoc]
    rfl

theorem generateLinks_cons (depth : Nat) (op : Operator) {right : Expr}
    (h : Generates generate right) (links : List (Operator × Expr)) :
    generateLinks (generate depth) ((op, right) :: links) = fun code =>
      codeWithin depth right >>= fun second =>
        generateLinks (generate depth) links (code ++ second ++ [op.instr]) := by
  funext code
  simp only [generateLinks, List.foldlM_cons, h depth, bind_assoc, pure_bind]

/-- Walking down from an operand before a chain gives its code before that of the chain. -/
theorem generateChain_leftChain (depth : Nat) (e : Expr) (links : List (Operator × Expr))
    (h : ∀ e', sizeOf e' ≤ sizeOf e → Generates generate e') :
    generateChain generate depth (leftChain e links) =
      codeWithin (depth + 1) e >>= generateLinks (generate depth) links := by
  -- The walk puts what it passes before the links, which therefore are any.
  induction e, links using leftChain.induct with
  | case1 left op right links ih =>
    have hright : Generates generate right := h right (by simp +arith)
    have hleft : ∀ e', sizeOf e' ≤ sizeOf left → Generates generate e' :=
      fun e' he' => h e' (by simp +arith; omega)
    rw [leftChain, ih hleft, codeWithin_binary, generateLinks_cons depth op hright]
    simp only [bind_assoc, pure_bind]
  | case2 e links hleaf =>
    rw [leftChain, generateChain, h e (Nat.le_refl _)]
    exact hleaf

/-- A generator that is right about all smaller expressions takes a right step. -/
theorem generateStep_eq {e : Expr} (h : ∀ e', sizeOf e' < sizeOf e → Generates generate e')
    (depth : Nat) : generateStep generate depth e = codeWithin depth e := by
  cases depth with
  | zero =>
    rw [generateStep, codeWithin, codeFault?]
    rfl
  | succ depth =>
    cases e with
    | literal | reference | random | missing => rfl
    | block body =>
      have hbody (e : Expr) (he : e ∈ body) : Generates generate e := by
        have hsize := List.sizeOf_lt_of_mem he
        exact h e (by simp +arith; omega)
      simp only [generateStep, generateAll_eq hbody, answer_map, codeWithin, codeFault?, code_block]
      rfl
    | sequence body =>
      have hbody (e : Expr) (he : e ∈ body) : Generates generate e := by
        have hsize := List.sizeOf_lt_of_mem he
        exact h e (by simp +arith; omega)
      exact generateAll_eq hbody depth []
    | closure params body =>
      have hbody := h body (by simp +arith) depth
      simp only [generateStep, hbody, codeWithin, answer_map]
      rfl
    | ifThen test consequent =>
      have htest := h test (by simp +arith) depth
      have hconsequent := h consequent (by simp +arith) depth
      simp only [generateStep, htest, hconsequent, codeWithin, answer_map, answer_bind,
        code_ifThen, codeFault?]
    | ifElse test consequent alternate =>
      have htest := h test (by simp +arith) depth
      have hconsequent := h consequent (by simp +arith) depth
      have halternate := h alternate (by simp +arith) depth
      simp only [generateStep, htest, hconsequent, halternate, codeWithin, answer_map, answer_bind,
        code_ifElse, codeFault?, Option.or_assoc]
    | assign name value =>
      have hvalue := h value (by simp +arith) depth
      simp only [generateStep, hvalue, codeWithin, answer_map, code_assign, codeFault?]
    | binary left op right =>
      have hright : Generates generate right := h right (by simp +arith)
      have hleft : ∀ e', sizeOf e' ≤ sizeOf left → Generates generate e' :=
        fun e' he' => h e' (by simp +arith; omega)
      rw [generateStep, leftChain, generateChain_leftChain depth left _ hleft, codeWithin_binary,
        generateLinks_cons depth op hright]
      rfl
    | builtin f argument =>
      have hargument := h argument (by simp +arith) depth
      simp only [generateStep, hargument, codeWithin, answer_map, code_builtin, codeFault?]
    | call name arguments =>
      have harguments (e : Expr) (he : e ∈ arguments.reverse) : Generates generate e := by
        have hsize := List.sizeOf_lt_of_mem (List.mem_reverse.1 he)
        exact h e (by simp +arith; omega)
      simp only [generateStep, generateAll_eq harguments, answer_map, codeWithin, codeFault?,
        code_call, codeFaultBack?_eq]
      rfl

/-- The generator that goes through chains in a loop gives the code of each expression. -/
theorem generate_iff (generate : Generator) :
    (∀ depth e, generate depth e = generateStep generate depth e) ↔ generate = codeWithin := by
  constructor
  · intro h
    have hall (e : Expr) : Generates generate e := by
      induction hsize : sizeOf e using Nat.strongRecOn generalizing e with
      | ind n ih =>
        subst hsize
        intro depth
        rw [h, generateStep_eq fun e' he' => ih _ he' e' rfl]
    funext depth e
    exact hall e depth
  · rintro rfl depth e
    exact (generateStep_eq (fun _ _ _ => rfl) depth).symm

end Step

end Expr

end Calculator
