import Calculator.Proofs.Machine.Depth
import Calculator.Proofs.Machine.Evaluation
import Calculator.Proofs.Program.RoundTrip

/-
  Evaluation of programs.  Compiling a term and running the code comes to evaluating the term
  directly: one value more on the stack, and the frames, random numbers and diagnostics that the
  evaluation gives (`Term.evaluates`).  The limit for running alone can stop such a run, and no term
  that is written in a source nests so deep.
-/

namespace Calculator

open Calculator.Expr Calculator.Machine

/-- What running the code of a term on a machine comes to. -/
structure Term.Evaluates [Limits] (t : Term) (m m' : Machine) : Prop where
  /-- The value of the term lies above the operands. -/
  operands : m'.operands = (t.eval m.world).1 :: m.operands
  /-- Frames, random numbers and diagnostics are those of the evaluation. -/
  world : m'.world = (t.eval m.world).2
  /-- As many frames are open as before. -/
  depth : m'.scopes.depth = m.scopes.depth
  /-- The code runs to its end where it may run as deep as its branches go. -/
  runs : ∀ depth, t.levels ≤ depth → execute depth t.toExpr.code m = .ok m'
  /-- Where it may not, it does the same, or stops because it is too deep. -/
  refines : ∀ depth, (execute depth t.toExpr.code m).Refines (.ok m')
  /-- A source of the term is compiled to the code, and the code runs to its end. -/
  program : ∀ source, parseSource source = .ok t.toExpr →
    compileSource source = .ok t.toExpr.code ∧ execute Limits.run t.toExpr.code m = .ok m'

/-- A term in a source has no more levels of branches than code may run deep. -/
theorem Term.levels_le_of_parse [Limits] {t : Term} {source : String}
    (h : parseSource source = .ok t.toExpr) : t.levels ≤ Limits.run := by
  obtain ⟨tokens, -, hprogram⟩ := parseSource_eq_ok h
  obtain ⟨es, hes, he⟩ := bind_eq_ok.1 hprogram
  calc t.levels ≤ t.toExpr.nesting := t.levels_le_nesting
    _ ≤ 3 * Limits.read := nesting_ofStatements hes he
    _ ≤ Limits.run := Limits.read_le_run

/-- The code of a term computes the value of the term, and changes what its evaluation changes. -/
theorem Term.evaluates [Limits] (t : Term) (m : Machine) : ∃ m', t.Evaluates m m' := by
  obtain ⟨m', hrun, hoperands, hworld⟩ := t.leaves (Nat.le_refl t.levels) m
  have hruns (depth : Nat) (h : t.levels ≤ depth) : execute depth t.toExpr.code m = .ok m' := by
    rcases execute_refines h t.toExpr.code m with ⟨stopped, hdeep⟩ | hsame
    · cases hrun.symm.trans hdeep
    · exact hsame.symm.trans hrun
  have hframes : m'.scopes.frames.length = m.scopes.frames.length := by
    have hlength := t.length_eval m.world
    rw [← hworld] at hlength
    exact hlength
  rw [Scopes.length_frames, Scopes.length_frames] at hframes
  refine ⟨m', hoperands, hworld, Nat.succ.inj hframes, hruns, fun depth => ?_, fun source h => ?_⟩
  · rw [← hruns (max depth t.levels) (Nat.le_max_right _ _)]
    exact execute_refines (Nat.le_max_left _ _) _ m
  · exact ⟨compileSource_of_parse h, hruns _ (t.levels_le_of_parse h)⟩

set_option maxRecDepth 4000 in
/-- A name that has no value is given to another in a block. -/
theorem Term.evaluates_block : ∃ m',
    (Term.block [.assign "x" (.reference "y")] (.reference "x")).Evaluates (.new 0) m' ∧
      m'.operands = [.number 0] ∧ m'.diagnostics = [.undefined "y"] ∧
      parseSource "\x7blet x=y;x\x7d" =
        .ok (Term.block [.assign "x" (.reference "y")] (.reference "x")).toExpr := by
  have htokens : tokensOf "\x7blet x=y;x\x7d" = .ok [
      ⟨.symbol .openBrace, ⟨1, 1, 0⟩, ⟨1, 2, 1⟩⟩, ⟨.keyword .letWord, ⟨1, 2, 1⟩, ⟨1, 5, 4⟩⟩,
      ⟨.identifier "x", ⟨1, 6, 5⟩, ⟨1, 7, 6⟩⟩, ⟨.symbol .assign, ⟨1, 7, 6⟩, ⟨1, 8, 7⟩⟩,
      ⟨.identifier "y", ⟨1, 8, 7⟩, ⟨1, 9, 8⟩⟩, ⟨.symbol .semicolon, ⟨1, 9, 8⟩, ⟨1, 10, 9⟩⟩,
      ⟨.identifier "x", ⟨1, 10, 9⟩, ⟨1, 11, 10⟩⟩,
      ⟨.symbol .closeBrace, ⟨1, 11, 10⟩, ⟨1, 12, 11⟩⟩] := by
    cbv
  obtain ⟨m', h⟩ :=
    (Term.block [.assign "x" (.reference "y")] (.reference "x")).evaluates (.new 0)
  refine ⟨m', h, h.operands.trans rfl, congrArg World.diagnostics h.world, ?_⟩
  rw [parseSource, htokens]
  rfl

end Calculator
