import Calculator.Proofs.Expr.Nesting
import Calculator.Proofs.Machine.Operation
import Calculator.Proofs.Machine.World

/-
  Expressions by the values that they leave.  A term leaves one value: its operands and branches are
  terms, and a block in it ends in one.  The rest of the block are statements, which leave none.
  Terms and statements are evaluated directly, by recursion, on the frames that names have values
  in: the left operand before the right one, and a block in a frame of its own.
-/

namespace Calculator

/-- What a function computes; a square root is a power of one half. -/
def Builtin.apply : Builtin → Number → Number
  | sin => Unary.sin.apply
  | cos => Unary.cos.apply
  | sqrt => fun x => Arithmetic.pow.apply x 0.5
  | log => Unary.log.apply
  | round => Unary.round.apply
  | floor => Unary.floor.apply

mutual
/-- An expression that leaves one value. -/
inductive Term where
  | literal (value : Number)
  | reference (name : String)
  | closure (params : List String) (body : Expr)
  | random
  | builtin (f : Builtin) (argument : Term)
  | binary (left : Term) (op : Operator) (right : Term)
  | ifElse (test consequent alternate : Term)
  /-- Statements and the term that is the value of the block. -/
  | block (body : List Statement) (last : Term)
/-- An expression that leaves no value. -/
inductive Statement where
  | assign (name : String) (value : Term)
  | block (body : List Statement)
  | ifThen (test : Term) (consequent : Statement)
  | ifElse (test : Term) (consequent alternate : Statement)
end

/-! ## Expressions -/

mutual
/-- A term as an expression. -/
def Term.toExpr : Term → Expr
  | .literal value => .literal value
  | .reference name => .reference name
  | .closure params body => .closure params body
  | .random => .random
  | .builtin f argument => .builtin f argument.toExpr
  | .binary left op right => .binary left.toExpr op right.toExpr
  | .ifElse test consequent alternate =>
    .ifElse test.toExpr consequent.toExpr alternate.toExpr
  | .block body last => .block (Statement.toExprs body ++ [last.toExpr])
/-- A statement as an expression. -/
def Statement.toExpr : Statement → Expr
  | .assign name value => .assign name value.toExpr
  | .block body => .block (Statement.toExprs body)
  | .ifThen test consequent => .ifThen test.toExpr consequent.toExpr
  | .ifElse test consequent alternate =>
    .ifElse test.toExpr consequent.toExpr alternate.toExpr
/-- Statements as expressions. -/
def Statement.toExprs : List Statement → List Expr
  | [] => []
  | s :: ss => s.toExpr :: Statement.toExprs ss
end

/-! ## Levels -/

mutual
/-- How many levels deep the code of a term runs: each branch is one more. -/
def Term.levels : Term → Nat
  | .literal _ | .reference _ | .closure _ _ | .random => 1
  | .builtin _ argument => argument.levels
  | .binary left _ right => max left.levels right.levels
  | .ifElse test consequent alternate =>
    max test.levels (max consequent.levels alternate.levels + 1)
  | .block body last => max (Statement.levelsAll body) last.levels
/-- How many levels deep the code of a statement runs. -/
def Statement.levels : Statement → Nat
  | .assign _ value => value.levels
  | .block body => Statement.levelsAll body
  | .ifThen test consequent => max test.levels (consequent.levels + 1)
  | .ifElse test consequent alternate =>
    max test.levels (max consequent.levels alternate.levels + 1)
/-- How many levels deep the code of some statements runs. -/
def Statement.levelsAll : List Statement → Nat
  | [] => 1
  | s :: ss => max s.levels (Statement.levelsAll ss)
end

mutual
theorem Term.levels_pos (t : Term) : 0 < t.levels := by
  cases t with
  | literal | reference | closure | random => exact Nat.one_pos
  | builtin f argument => exact argument.levels_pos
  | binary left op right => exact lt_max_of_lt_left left.levels_pos
  | ifElse test => exact lt_max_of_lt_left test.levels_pos
  | block body last => exact lt_max_of_lt_right last.levels_pos
theorem Statement.levels_pos (s : Statement) : 0 < s.levels := by
  cases s with
  | assign name value => exact value.levels_pos
  | block body => exact Statement.levelsAll_pos body
  | ifThen test | ifElse test => exact lt_max_of_lt_left test.levels_pos
theorem Statement.levelsAll_pos (ss : List Statement) : 0 < Statement.levelsAll ss := by
  cases ss with
  | nil => exact Nat.one_pos
  | cons s ss => exact lt_max_of_lt_left s.levels_pos
end

namespace Expr

theorem nestingAll_append (es es' : List Expr) :
    nestingAll (es ++ es') = max (nestingAll es) (nestingAll es') := by
  induction es with
  | nil => exact (Nat.zero_max _).symm
  | cons e es ih => rw [List.cons_append, nestingAll, nestingAll, ih, Nat.max_assoc]

end Expr

mutual
/-- The code of a term runs no deeper than the text of the term nests. -/
theorem Term.levels_le_nesting (t : Term) : t.levels ≤ t.toExpr.nesting := by
  cases t with
  | literal | reference | random => exact Nat.le_refl 1
  | closure params body => exact Nat.le_add_left 1 _
  | builtin f argument =>
    have := argument.levels_le_nesting
    rw [Term.levels, Term.toExpr, Expr.nesting]
    omega
  | binary left op right =>
    have := left.levels_le_nesting
    have := right.levels_le_nesting
    rw [Term.levels, Term.toExpr, Expr.nesting]
    omega
  | ifElse test consequent alternate =>
    have := test.levels_le_nesting
    have := consequent.levels_le_nesting
    have := alternate.levels_le_nesting
    rw [Term.levels, Term.toExpr, Expr.nesting]
    omega
  | block body last =>
    have := Statement.levelsAll_le_nesting body
    have := last.levels_le_nesting
    rw [Term.levels, Term.toExpr, Expr.nesting, Expr.nestingAll_append, Expr.nestingAll,
      Expr.nestingAll]
    omega
theorem Statement.levels_le_nesting (s : Statement) : s.levels ≤ s.toExpr.nesting := by
  cases s with
  | assign name value =>
    have := value.levels_le_nesting
    rw [Statement.levels, Statement.toExpr, Expr.nesting]
    omega
  | block body => exact Statement.levelsAll_le_nesting body
  | ifThen test consequent =>
    have := test.levels_le_nesting
    have := consequent.levels_le_nesting
    rw [Statement.levels, Statement.toExpr, Expr.nesting]
    omega
  | ifElse test consequent alternate =>
    have := test.levels_le_nesting
    have := consequent.levels_le_nesting
    have := alternate.levels_le_nesting
    rw [Statement.levels, Statement.toExpr, Expr.nesting]
    omega
theorem Statement.levelsAll_le_nesting (ss : List Statement) :
    Statement.levelsAll ss ≤ Expr.nestingAll (Statement.toExprs ss) + 1 := by
  cases ss with
  | nil => exact Nat.le_refl 1
  | cons s ss =>
    have := s.levels_le_nesting
    have := Statement.levelsAll_le_nesting ss
    rw [Statement.levelsAll, Statement.toExprs, Expr.nestingAll]
    omega
end

/-! ## Evaluation -/

mutual
/-- The value of a term, and what is left of the world after it. -/
def Term.eval : Term → World → Value × World
  | .literal value, w => (.number value, w)
  | .reference name, w => w.lookup name
  | .closure params body, w => (.routine (params.map .bind ++ body.code), w)
  | .random, w => w.draw
  | .builtin f argument, w =>
    let (v, w) := argument.eval w
    (.number (f.apply v.toNumber), w)
  | .binary left op right, w =>
    let (x, w) := left.eval w
    let (y, w) := right.eval w
    (.number (op.apply x.toNumber y.toNumber), w)
  | .ifElse test consequent alternate, w =>
    let (v, w) := test.eval w
    if v.toNumber != 0 then consequent.eval w else alternate.eval w
  | .block body last, w =>
    let (v, w) := last.eval (Statement.evalAll body w.enter)
    (v, w.leave)
/-- What is left of the world after a statement. -/
def Statement.eval : Statement → World → World
  | .assign name value, w =>
    let (v, w) := value.eval w
    w.assign name v
  | .block body, w => (Statement.evalAll body w.enter).leave
  | .ifThen test consequent, w =>
    let (v, w) := test.eval w
    if v.toNumber != 0 then consequent.eval w else w
  | .ifElse test consequent alternate, w =>
    let (v, w) := test.eval w
    if v.toNumber != 0 then consequent.eval w else alternate.eval w
/-- What is left of the world after some statements. -/
def Statement.evalAll : List Statement → World → World
  | [], w => w
  | s :: ss, w => Statement.evalAll ss (s.eval w)
end

mutual
/-- Evaluation closes the frames that it opens. -/
theorem Term.length_eval (t : Term) (w : World) :
    (t.eval w).2.frames.length = w.frames.length := by
  cases t with
  | literal | closure | random => rfl
  | reference name => exact congrArg _ (w.lookup_frames name)
  | builtin f argument => exact argument.length_eval w
  | binary left op right => exact (right.length_eval _).trans (left.length_eval w)
  | ifElse test consequent alternate =>
    rw [Term.eval]
    dsimp only
    split
    · exact (consequent.length_eval _).trans (test.length_eval w)
    · exact (alternate.length_eval _).trans (test.length_eval w)
  | block body last =>
    have hbody := (last.length_eval _).trans (Statement.length_evalAll body w.enter)
    rw [Term.eval]
    dsimp only [World.leave]
    rw [List.length_tail, hbody]
    rfl
theorem Statement.length_eval (s : Statement) (w : World) :
    (s.eval w).frames.length = w.frames.length := by
  cases s with
  | assign name value => exact (World.length_assign _ name _).trans (value.length_eval w)
  | block body =>
    have hbody := Statement.length_evalAll body w.enter
    rw [Statement.eval]
    dsimp only [World.leave]
    rw [List.length_tail, hbody]
    rfl
  | ifThen test consequent =>
    rw [Statement.eval]
    dsimp only
    split
    · exact (consequent.length_eval _).trans (test.length_eval w)
    · exact test.length_eval w
  | ifElse test consequent alternate =>
    rw [Statement.eval]
    dsimp only
    split
    · exact (consequent.length_eval _).trans (test.length_eval w)
    · exact (alternate.length_eval _).trans (test.length_eval w)
theorem Statement.length_evalAll (ss : List Statement) (w : World) :
    (Statement.evalAll ss w).frames.length = w.frames.length := by
  cases ss with
  | nil => rfl
  | cons s ss => exact (Statement.length_evalAll ss _).trans (s.length_eval w)
end

end Calculator
