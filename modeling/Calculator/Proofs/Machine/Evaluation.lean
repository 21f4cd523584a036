import Calculator.Proofs.Machine.Term

/-
  Running the code of terms and statements.  The code of a term leaves the operands where they are
  and puts the value of the term above them, that of a statement puts nothing there, and both change
  the world as their evaluation does (`Term.leaves`, `Statement.leaves`).  The induction is on terms
  and statements, for all machines at once, since the code of an operand runs on what the operands
  before it left.
-/

namespace Calculator

namespace Machine

/-- Code runs to an end, and leaves such operands and such a world. -/
def Leaves (depth : Nat) (code : List Instr) (m : Machine) (operands : List Value) (w : World) :
    Prop :=
  ∃ m', execute depth code m = .ok m' ∧ m'.operands = operands ∧ m'.world = w

namespace Leaves

variable {depth : Nat} {code code' : List Instr} {m m' : Machine} {operands operands' : List Value}
  {w w' : World} {i : Instr} {v : Value} {rest : List Value}

theorem append (h : Leaves depth code m operands w)
    (h' : ∀ m', m'.operands = operands → m'.world = w → Leaves depth code' m' operands' w') :
    Leaves depth (code ++ code') m operands' w' := by
  obtain ⟨m₁, hrun, hoperands, hworld⟩ := h
  obtain ⟨m₂, hrun', hends⟩ := h' m₁ hoperands hworld
  refine ⟨m₂, ?_, hends⟩
  rw [execute_append, hrun]
  exact hrun'

theorem nil (hdepth : 0 < depth) (m : Machine) : Leaves depth [] m m.operands m.world := by
  cases depth with
  | zero => cases hdepth
  | succ depth => exact ⟨m, rfl, rfl, rfl⟩

/-- An instruction that does something by itself. -/
theorem does (hdepth : 0 < depth) (h : Instr.Does i m m') (hoperands : m'.operands = operands)
    (hworld : m'.world = w) : Leaves depth [i] m operands w := by
  cases depth with
  | zero => cases hdepth
  | succ depth =>
    refine ⟨m', ?_, hoperands, hworld⟩
    rw [execute_cons, h.step]
    rfl

/-- A branch runs code one level deeper. -/
theorem runs (h : Instr.Runs i m code m') (hi : i ≠ .call)
    (hcode : Leaves depth code m' operands w) : Leaves (depth + 1) [i] m operands w := by
  obtain ⟨m₁, hrun, hends⟩ := hcode
  refine ⟨m₁, ?_, hends⟩
  rw [execute_cons, h.step, Instr.outcome_of_ne hi, hrun]
  rfl

section Branches

variable (h : m.operands = v :: rest) (hworld : m.world = w)
include h hworld

theorem consequent (hv : (v.toNumber != 0) = true) (hcode : ∀ m', m'.operands = rest →
    m'.world = w → Leaves depth code m' operands' w') :
    Leaves (depth + 1) [.branch code code'] m operands' w' :=
  .runs (.consequent h hv) nofun (hcode _ rfl hworld)

theorem alternate (hv : (v.toNumber != 0) = false) (hcode : ∀ m', m'.operands = rest →
    m'.world = w → Leaves depth code' m' operands' w') :
    Leaves (depth + 1) [.branch code code'] m operands' w' :=
  .runs (.alternate h hv) nofun (hcode _ rfl hworld)

theorem skipUnless (hv : (v.toNumber != 0) = true) (hcode : ∀ m', m'.operands = rest →
    m'.world = w → Leaves depth code m' operands' w') :
    Leaves (depth + 1) [.skipUnless code] m operands' w' :=
  .runs (.skipUnless h hv) nofun (hcode _ rfl hworld)

end Branches

/-- Code in a frame of its own. -/
theorem block (hdepth : 0 < depth) (hlength : w.frames.length = m.world.enter.frames.length)
    (h : ∀ m', m'.operands = m.operands → m'.world = m.world.enter →
      Leaves depth code m' operands w) :
    Leaves depth (.enter :: (code ++ [.leave])) m operands w.leave := by
  have henter : Leaves depth [.enter] m m.operands m.world.enter :=
    does hdepth (.enter m) rfl rfl
  refine henter.append fun m₁ hoperands hworld => ?_
  refine (h m₁ hoperands hworld).append fun m₂ hoperands₂ hworld₂ => ?_
  have hframes : m₂.scopes.frames = w.frames := congrArg World.frames hworld₂
  -- The frame that was opened is still there, above those of the machine.
  have hopen : 1 < m₂.scopes.frames.length := by
    have := m.scopes.length_frames
    rw [hframes, hlength]
    change 1 < m.scopes.frames.length + 1
    omega
  obtain ⟨scopes, hleave, hclosed⟩ := Scopes.leave?_frames hopen
  refine does hdepth (.leave hleave) hoperands₂ ?_
  rw [← hworld₂, world, hclosed]
  rfl

end Leaves

/-- The code of a function. -/
theorem leaves_builtin {depth : Nat} (hdepth : 0 < depth) (f : Builtin) {m : Machine} {v : Value}
    {rest : List Value} (h : m.operands = v :: rest) :
    Leaves depth f.code m (.number (f.apply v.toNumber) :: rest) m.world := by
  cases f with
  | sin | cos | log | round | floor => exact .does hdepth (.unary h) rfl rfl
  | sqrt =>
    have hpush : Leaves depth [.push 0.5] m (.number 0.5 :: m.operands) m.world :=
      .does hdepth (.push 0.5 m) rfl rfl
    refine hpush.append fun m₁ hoperands hworld => ?_
    rw [h] at hoperands
    exact .does hdepth (.arithmetic hoperands) rfl hworld

end Machine

open Machine

mutual
/-- The code of a term puts the value of the term above the operands. -/
theorem Term.leaves (t : Term) {depth : Nat} (h : t.levels ≤ depth) (m : Machine) :
    Leaves depth t.toExpr.code m ((t.eval m.world).1 :: m.operands) (t.eval m.world).2 := by
  have hdepth : 0 < depth := Nat.lt_of_lt_of_le t.levels_pos h
  cases t with
  | literal value => exact .does hdepth (.push value m) rfl rfl
  | reference name =>
    obtain ⟨hoperands, hworld⟩ := m.load_eq name
    exact .does hdepth (.load name m) hoperands hworld
  | closure params body => exact .does hdepth (.pushRoutine _ m) rfl rfl
  | random => exact .does hdepth (.pushRandom m) rfl rfl
  | builtin f argument =>
    rw [Term.toExpr, Expr.code_builtin, Term.eval]
    refine (argument.leaves h m).append fun m₁ hoperands hworld => ?_
    rw [← hworld]
    exact leaves_builtin hdepth f hoperands
  | binary left op right =>
    obtain ⟨hleft, hright⟩ := Nat.max_le.1 h
    rw [Term.toExpr, Expr.code_binary, Term.eval]
    refine (left.leaves hleft m).append fun m₁ hoperands₁ hworld₁ => ?_
    have hrun := right.leaves hright m₁
    rw [hoperands₁, hworld₁] at hrun
    exact hrun.append fun m₂ hoperands₂ hworld₂ => .does hdepth (op.does hoperands₂) rfl hworld₂
  | ifElse test consequent alternate =>
    obtain ⟨htest, hbranches⟩ := Nat.max_le.1 h
    obtain ⟨depth, rfl⟩ := Nat.exists_eq_succ_of_ne_zero hdepth.ne'
    obtain ⟨hconsequent, halternate⟩ := Nat.max_le.1 (Nat.le_of_succ_le_succ hbranches)
    rw [Term.toExpr, Expr.code_ifElse, Term.eval]
    refine (test.leaves htest m).append fun m₁ hoperands₁ hworld₁ => ?_
    dsimp only
    split
    · next hv =>
      exact .consequent hoperands₁ hworld₁ hv fun m₂ hoperands hworld =>
        hoperands ▸ hworld ▸ consequent.leaves hconsequent m₂
    · next hv =>
      exact .alternate hoperands₁ hworld₁ (Bool.eq_false_of_not_eq_true hv)
        fun m₂ hoperands hworld => hoperands ▸ hworld ▸ alternate.leaves halternate m₂
  | block body last =>
    obtain ⟨hbody, hlast⟩ := Nat.max_le.1 h
    rw [Term.toExpr, Expr.code_block, Expr.codeAllOnto_last, Term.eval]
    have hlength : (last.eval (Statement.evalAll body m.world.enter)).2.frames.length =
        m.world.enter.frames.length :=
      (last.length_eval _).trans (Statement.length_evalAll body _)
    refine .block hdepth hlength fun m₁ hoperands₁ hworld₁ => ?_
    have hrun := Statement.leavesAll body hbody m₁
    rw [hoperands₁, hworld₁] at hrun
    refine hrun.append fun m₂ hoperands₂ hworld₂ => ?_
    exact hoperands₂ ▸ hworld₂ ▸ last.leaves hlast m₂
/-- The code of a statement leaves the operands as they are. -/
theorem Statement.leaves (s : Statement) {depth : Nat} (h : s.levels ≤ depth) (m : Machine) :
    Leaves depth s.toExpr.code m m.operands (s.eval m.world) := by
  have hdepth : 0 < depth := Nat.lt_of_lt_of_le s.levels_pos h
  cases s with
  | assign name value =>
    rw [Statement.toExpr, Expr.code_assign, Statement.eval]
    refine (value.leaves h m).append fun m₁ hoperands hworld => ?_
    refine .does hdepth (.assign hoperands) rfl ?_
    rw [world, Scopes.frames_assign]
    exact congrArg (World.assign · name _) hworld
  | block body =>
    rw [Statement.toExpr, Expr.code_block, Statement.eval]
    refine .block hdepth (Statement.length_evalAll body _) fun m₁ hoperands hworld => ?_
    exact hoperands ▸ hworld ▸ Statement.leavesAll body h m₁
  | ifThen test consequent =>
    obtain ⟨htest, hbranch⟩ := Nat.max_le.1 h
    obtain ⟨depth, rfl⟩ := Nat.exists_eq_succ_of_ne_zero hdepth.ne'
    have hconsequent := Nat.le_of_succ_le_succ hbranch
    rw [Statement.toExpr, Expr.code_ifThen, Statement.eval]
    refine (test.leaves htest m).append fun m₁ hoperands₁ hworld₁ => ?_
    dsimp only
    split
    · next hv =>
      exact .skipUnless hoperands₁ hworld₁ hv fun m₂ hoperands hworld =>
        hoperands ▸ hworld ▸ consequent.leaves hconsequent m₂
    · next hv =>
      have hskip := Bool.eq_false_of_not_eq_true hv
      exact .does hdepth (.skipUnless hoperands₁ hskip) rfl hworld₁
  | ifElse test consequent alternate =>
    obtain ⟨htest, hbranches⟩ := Nat.max_le.1 h
    obtain ⟨depth, rfl⟩ := Nat.exists_eq_succ_of_ne_zero hdepth.ne'
    obtain ⟨hconsequent, halternate⟩ := Nat.max_le.1 (Nat.le_of_succ_le_succ hbranches)
    rw [Statement.toExpr, Expr.code_ifElse, Statement.eval]
    refine (test.leaves htest m).append fun m₁ hoperands₁ hworld₁ => ?_
    dsimp only
    split
    · next hv =>
      exact .consequent hoperands₁ hworld₁ hv fun m₂ hoperands hworld =>
        hoperands ▸ hworld ▸ consequent.leaves hconsequent m₂
    · next hv =>
      exact .alternate hoperands₁ hworld₁ (Bool.eq_false_of_not_eq_true hv)
        fun m₂ hoperands hworld => hoperands ▸ hworld ▸ alternate.leaves halternate m₂
/-- The code of some statements leaves the operands as they are. -/
theorem Statement.leavesAll (ss : List Statement) {depth : Nat}
    (h : Statement.levelsAll ss ≤ depth) (m : Machine) :
    Leaves depth (Expr.codeAllOnto (Statement.toExprs ss) []) m m.operands
      (Statement.evalAll ss m.world) := by
  cases ss with
  | nil => exact .nil h m
  | cons s ss =>
    obtain ⟨hs, hss⟩ := Nat.max_le.1 h
    rw [Statement.toExprs, Expr.codeAllOnto, Expr.codeOnto_eq, Statement.evalAll]
    refine (s.leaves hs m).append fun m₁ hoperands hworld => ?_
    exact hoperands ▸ hworld ▸ Statement.leavesAll ss hss m₁
end

end Calculator
