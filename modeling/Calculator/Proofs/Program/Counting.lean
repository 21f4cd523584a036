import Calculator.Proofs.Machine.Counting
import Calculator.Proofs.Program.RoundTrip

/-
  Programs that count by recursion.  `loopSource` defines a loop, and `countSource n` runs it `n`
  times to count up a global number.  For every `n` below `2 ^ 53` the second leaves no result, no
  diagnostics and no names but the ones there were, unless the calls go too deep for the machine
  (`counts`).
-/

namespace Calculator

open Calculator.Expr Machine Number Instr

/-! ## The sources -/

/-- The definition of the loop. -/
def loopSource : String :=
  "let loop = (i, n, f) => \x7b if (i < n) \x7b f(); loop(i + 1, n, f); \x7d else \x7b\x7d \x7d"

/-- The loop run so many times, adding one to `y` each time. -/
def countSource (n : Nat) : String := "loop(0, " ++ toString n ++ ", () => let y = y + 1)"

/-- The definition of the loop as an expression. -/
def loopDefinition : Expr := .assign "loop" (.closure loopParams loopBody)

/-- The loop run so many times as an expression. -/
def countCall (n : Nat) : Expr :=
  .call "loop" [.literal (natural 0), .literal (natural n), .closure [] increment]

set_option maxRecDepth 4000 in
theorem parseSource_loop [Limits] : parseSource loopSource = .ok loopDefinition := by
  have hlexemes : (Scan.ofCursor (.ofString loopSource)).all.map (·.lexeme) = [
      .keyword .letWord, .identifier "loop", .symbol .assign,
      .symbol .openParen, .identifier "i", .symbol .comma, .identifier "n", .symbol .comma,
      .identifier "f", .symbol .closeParen, .symbol .arrow, .symbol .openBrace,
      .keyword .ifWord, .symbol .openParen, .identifier "i", .symbol .less, .identifier "n",
      .symbol .closeParen, .symbol .openBrace,
      .identifier "f", .symbol .openParen, .symbol .closeParen, .symbol .semicolon,
      .identifier "loop", .symbol .openParen, .identifier "i", .symbol .add, .number 1,
      .symbol .comma, .identifier "n", .symbol .comma, .identifier "f", .symbol .closeParen,
      .symbol .semicolon, .symbol .closeBrace,
      .keyword .elseWord, .symbol .openBrace, .symbol .closeBrace, .symbol .closeBrace] := by
    decide +kernel
  have hprogram : ofStatements [loopDefinition] = .ok loopDefinition := rfl
  exact parseSource_of_lexemes (by decide +kernel) hlexemes (ofTokens_of_statements rfl hprogram)

theorem compileSource_loop [Limits] : compileSource loopSource =
    .ok [.pushRoutine loopRoutine, .assign "loop"] :=
  compileSource_of_parse parseSource_loop

section Count

variable {n : Nat} (h : n < 2 ^ 53)
include h

theorem format_countCall : (countCall n).format .spaced 0 = (countSource n).toList := by
  have hdigits : plain (natural n) = (toString n).toList := by
    rw [plain_natural h]
    exact Nat.toList_repr.symm
  have hzero : plain (natural 0) = ['0'] := plain_natural (by decide)
  have hone : plain 1 = ['1'] := by
    rw [← natural_one]
    exact plain_natural (by decide)
  have htext : (countCall n).format .spaced 0 = "loop(".toList ++ (plain (natural 0) ++
      (", ".toList ++ (plain (natural n) ++ (", () => let y = y + ".toList ++
        (plain 1 ++ [')']))))) := rfl
  rw [htext, hdigits, hzero, hone, countSource, String.toList_append, String.toList_append,
    List.append_assoc]
  rfl

theorem normal_countCall : (countCall n).normal = countCall n := by
  have hone : unsignedZero 1 = 1 := by decide
  have hzero : unsignedZero (natural 0) = natural 0 := unsignedZero_natural (by decide)
  simp [countCall, increment, normal, normalAll, hone, hzero, unsignedZero_natural h,
    Operator.written]

theorem parseSource_count [Limits] : parseSource (countSource n) = .ok (countCall n) := by
  have hy : Scan.IsName "y".toList :=
    ⟨List.cons_ne_nil _ _, List.all_eq_true.1 rfl, by decide +kernel, by rintro _ ⟨⟩; decide⟩
  have hloop : Scan.IsName "loop".toList :=
    ⟨List.cons_ne_nil _ _, List.all_eq_true.1 rfl, by decide +kernel, by rintro _ ⟨⟩; decide⟩
  have hone : (1 : Number).IsNumber := natural_one ▸ Decimal.toNumber_ne_nan _
  have hprintable : (countCall n).Printable := by
    refine .call hloop (List.forall_mem_cons.2 ⟨.literal (Decimal.toNumber_ne_nan _),
      List.forall_mem_cons.2 ⟨.literal (Decimal.toNumber_ne_nan _), List.forall_mem_singleton.2 ?_⟩⟩)
    exact .closure (List.forall_mem_nil _) (.assign hy (.binary (.reference hy) (.literal hone)))
  have hnesting : (countCall n).nesting ≤ Limits.read := by
    rw [show (countCall n).nesting = 4 from rfl]
    exact Nat.le_trans (by decide) Limits.sixty_le_read
  have hparse := (parseSource_format (.single hprintable) .spaced).1 hnesting
  rwa [format_countCall h, String.ofList_toList, normal_countCall h] at hparse

end Count

/-! ## What the programs do -/

theorem Machine.runWithin_eq_ok {depth : Nat} {code : List Instr} {m m' : Machine}
    (h : execute depth code m.cleared = .ok m') (hdepth : m'.scopes.depth = m.scopes.depth) :
    m.runWithin depth code = .ok m' := by
  have hkeep : m'.keep m.scopes.depth = m' := by
    rw [keep, Scopes.keep, ← hdepth, Scopes.depth, Nat.sub_self, List.drop_zero]
  change keepAfter _ (execute depth code m.cleared) = _
  rw [h, keepAfter, hkeep]

theorem Machine.compute_eq_ok [Limits] {source : String} {code : List Instr} {m m' : Machine}
    (hcode : compileSource source = .ok code) (hrun : m.run code = .ok m')
    (hoperands : m'.operands = []) : m.compute source = (.ok none, m') := by
  have hresult : m'.popResult = (none, m') := by
    unfold popResult
    rw [hoperands]
  unfold compute
  rw [hcode]
  dsimp only
  rw [hrun]
  dsimp only
  rw [hresult]

theorem Machine.compute_eq_error [Limits] {source : String} {code : List Instr} {fault : RunFault}
    {m m' : Machine} (hcode : compileSource source = .ok code)
    (hrun : m.run code = .error (fault, m')) : m.compute source = (.error (.run fault), m') := by
  unfold compute
  rw [hcode]
  dsimp only
  rw [hrun]

/-- Defining the loop gives it a value in the global frame, and does nothing else. -/
theorem compute_loop [Limits] {m : Machine} (hinner : m.scopes.inner = []) :
    m.compute loopSource = (.ok none, m.cleared.setGlobal "loop" (.routine loopRoutine)) := by
  obtain ⟨operands, ⟨inner, globals⟩, generator, diagnostics⟩ := m
  cases hinner
  have hassign : Scopes.assign ⟨[], globals⟩ "loop" (.routine loopRoutine) =
      ⟨[], globals.put "loop" (.routine loopRoutine)⟩ := ite_self _
  have hrun (depth : Nat) (m : Machine) (hm : m.scopes = ⟨[], globals⟩) :
      execute (depth + 1) [.pushRoutine loopRoutine, .assign "loop"] m =
        .ok (m.setGlobal "loop" (.routine loopRoutine)) := by
    rw [execute_cons, (Does.pushRoutine _ _).step]
    change Except.ok { m with scopes := m.scopes.assign "loop" _ } = _
    rw [setGlobal, hm, hassign]
  refine compute_eq_ok compileSource_loop (runWithin_eq_ok ?_ rfl) rfl
  rw [← Nat.sub_add_cancel Limits.run_pos]
  exact hrun _ _ rfl

/-- The call of the loop takes its turns and leaves the count. -/
theorem execute_countCall {m : Machine} {n : Nat} {y : Number} (h : m.Loops y) (hn : n < 2 ^ 53)
    (depth : Nat) : execute (depth + 2 * n + 3) (countCall n).code m =
      .ok (m.setGlobal "y" (.number ((· + 1)^[n] y))) := by
  have hparams : loopParams.Nodup := by decide
  let called : Machine := { m with operands := loopValues (natural 0) (natural n) ++ m.operands }
  have hcall : called.scopes.find? "loop" = some (.routine loopRoutine) :=
    (Scopes.find?_global h.global.1).trans h.loop
  calc execute (depth + 2 * n + 3) (countCall n).code m
      = execute (depth + 2 * n + 1 + 2) (.load "loop" :: .call :: []) called := rfl
    _ = (keepAfter m.scopes.depth (execute (depth + 2 * n + 2) loopBody.code
          (m.within (loopFrame (natural 0) (natural n)) m.operands)) >>= _) :=
        execute_call_values hparams rfl rfl hcall _ []
    _ = .ok (m.setGlobal "y" (.number ((· + 1)^[n] y))) := by
        rw [execute_loop n.zero_add hn h, keepAfter_setGlobal]
        rfl

/-- What running the loop `n` times comes to, where `y` is the number to count up. -/
structure Counts [Limits] (n : Nat) (y : Number) (m m' : Machine) : Prop where
  /-- The program has code. -/
  compiles : compileSource (countSource n) = .ok (countCall n).code
  /-- Each turn goes two levels deeper. -/
  runs : ∀ depth, 2 * n + 3 ≤ depth → m.runWithin depth (countCall n).code = .ok m'
  /-- Where the code may not run so deep, it does the same, or stops because it is too deep. -/
  refines : ∀ depth, (m.runWithin depth (countCall n).code).Refines (.ok m')
  /-- So the program has no result, unless it is too deep. -/
  computes : m.compute (countSource n) = (.ok none, m') ∨
    ∃ stopped, m.compute (countSource n) = (.error (.run .tooDeep), stopped)
  /-- Turns that the limit leaves room for are not too deep. -/
  within : 2 * n + 3 ≤ Limits.run → m.compute (countSource n) = (.ok none, m')
  /-- Nothing is left on the stack. -/
  operands : m'.operands = []
  /-- Nothing is noted. -/
  diagnostics : m'.diagnostics = []
  /-- The global frame is the only one. -/
  inner : m'.scopes.inner = []
  /-- It knows the same names. -/
  names : m'.scopes.globals.names = m.scopes.globals.names
  /-- One was added to `y` so many times. -/
  value : m'.scopes.globals.find? "y" = some (.number ((· + 1)^[n] y))
  /-- No other name has changed. -/
  others : ∀ name, name ≠ "y" → m'.scopes.globals.find? name = m.scopes.globals.find? name
  /-- No random number was drawn. -/
  generator : m'.generator = m.generator

/-- Where the loop is defined by its source and `y` is a number, running it `n` times adds one to `y`
so many times and leaves everything else as it was. -/
theorem counts [Limits] : (∀ m : Machine, m.scopes.inner = [] →
      m.compute loopSource = (.ok none, m.cleared.setGlobal "loop" (.routine loopRoutine))) ∧
    ∀ (m : Machine) (n : Nat) (y : Number), m.scopes.inner = [] → n < 2 ^ 53 →
      m.scopes.globals.find? "loop" = some (.routine loopRoutine) →
      m.scopes.globals.find? "y" = some (.number y) → ∃ m', Counts n y m m' := by
  refine ⟨fun m => compute_loop, fun m n y hinner hn hloop hy => ?_⟩
  have hglobal (name : String) : m.cleared.scopes.IsGlobal name := by
    change ∀ f ∈ m.scopes.inner, _
    rw [hinner]
    exact List.forall_mem_nil _
  have hloops : m.cleared.Loops y := ⟨hloop, hy, hglobal "loop", hglobal "y"⟩
  have hcode : compileSource (countSource n) = .ok (countCall n).code :=
    compileSource_of_parse (parseSource_count hn)
  let m' := m.cleared.setGlobal "y" (.number ((· + 1)^[n] y))
  have hruns (depth : Nat) (h : 2 * n + 3 ≤ depth) :
      m.runWithin depth (countCall n).code = .ok m' := by
    have hrun := execute_countCall hloops hn (depth - (2 * n + 3))
    rw [show depth - (2 * n + 3) + 2 * n + 3 = depth by omega] at hrun
    exact runWithin_eq_ok hrun rfl
  have hrefines (depth : Nat) : (m.runWithin depth (countCall n).code).Refines (.ok m') := by
    rw [← hruns (max depth (2 * n + 3)) (Nat.le_max_right _ _)]
    exact runWithin_refines (Nat.le_max_left _ _) _ m
  refine ⟨m', hcode, hruns, hrefines, ?_, ?_, rfl, rfl, hinner, ?_, ?_, ?_, rfl⟩
  · rcases hrefines Limits.run with ⟨stopped, hdeep⟩ | hsame
    · exact .inr ⟨stopped, compute_eq_error hcode hdeep⟩
    · exact .inl (compute_eq_ok hcode hsame rfl)
  · exact fun h => compute_eq_ok hcode (hruns _ h) rfl
  · exact (Frame.names_put _ _ _).trans (if_pos (Frame.mem_names_of_find? hy))
  · exact Frame.find?_put _ _ _
  · exact fun name hname => Frame.find?_put_of_ne hname

/-- A machine on which `y` has a value. -/
def withHalf : Machine := { Machine.new 0 with scopes := { globals := [("y", .number 0.5)] } }

/-- Three turns from one half, on a machine where the loop has been defined. -/
theorem counts_three : ∃ m',
    (withHalf.compute loopSource).2.compute "loop(0, 3, () => let y = y + 1)" = (.ok none, m') ∧
      m'.scopes.globals.find? "y" = some (.number 3.5) := by
  have hsource : "loop(0, 3, () => let y = y + 1)" = countSource 3 := rfl
  obtain ⟨m', h⟩ := counts.2 (withHalf.cleared.setGlobal "loop" (.routine loopRoutine)) 3 0.5 rfl
    (by decide) (Frame.find?_put _ _ _) rfl
  have hvalue : (· + 1)^[3] (0.5 : Number) = 3.5 := by decide
  rw [counts.1 withHalf rfl, hsource]
  exact ⟨m', h.within (by decide), hvalue ▸ h.value⟩

end Calculator
