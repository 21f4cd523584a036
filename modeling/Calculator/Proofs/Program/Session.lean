import Calculator.Proofs.Machine.Scoped
import Calculator.Proofs.Program.RoundTrip

/-
  Sessions.  A session is a new machine on which programs are run and results are taken, one after
  another, whether they fail or not.  Every routine that a machine of a session holds, now or while
  a program runs, comes from a program; so no program closes a frame that it did not open, uses a
  comparison that does not exist, or meets an unknown instruction (`Session.wellScoped`).
-/

namespace Calculator

open Machine Instr

/-- The machines of a session. -/
inductive Session [Limits] (seed : Int) : Machine → Prop
  | new : Session seed (.new seed)
  | exec {m : Machine} {source : String} {code : List Instr}
      (hcode : compileSource source = .ok code) (h : Session seed m) :
      Session seed (m.exec code).2
  | popResult {m : Machine} (h : Session seed m) : Session seed m.popResult.2

namespace Session

variable {seed : Int} {m : Machine}

/-- Computing a program goes on with a session, whatever comes out. -/
theorem compute [Limits] (source : String) (h : Session seed m) :
    Session seed (m.compute source).2 := by
  unfold Machine.compute
  cases hcode : compileSource source with
  | error fault => exact h
  | ok code =>
    have hexec := h.exec hcode
    unfold Machine.exec at hexec
    dsimp only
    cases hrun : m.run code with
    | error stop =>
      rw [hrun] at hexec
      exact hexec
    | ok m' =>
      rw [hrun] at hexec
      exact hexec.popResult

/-- The code of every program closes the frames that it opens. -/
theorem closes_of_compile [Limits] {source : String} {code : List Instr}
    (h : compileSource source = .ok code) : Closes code 0 := by
  obtain ⟨e, he, rfl⟩ := parseSource_of_compile h
  exact (parseSource_printable he).code_closes

theorem run_ends [Limits] {code : List Instr} (hcode : Closes code 0)
    (hm : m.All Value.Scoped) : (m.run code).Ends m.scopes.depth := by
  have hstart : ({ m with operands := [], diagnostics := [] } : Machine).All Value.Scoped := hm.bare
  have hends : (execute Limits.run code { m with operands := [], diagnostics := [] }).Ends
      m.scopes.depth := execute_scoped hcode rfl hstart
  unfold run runWithin
  cases houtcome : execute Limits.run code { m with operands := [], diagnostics := [] } with
  | ok m' =>
    rw [houtcome] at hends
    refine ⟨hends.1.keep _, ?_⟩
    exact (Scopes.depth_keep _ _).trans (by rw [hends.2, Nat.min_self])
  | error stop =>
    rw [houtcome] at hends
    exact ⟨hends.1, hends.2.keep _⟩

/-- Between programs a machine holds scoped routines only. -/
theorem all_scoped [Limits] (h : Session seed m) : m.All Value.Scoped := by
  induction h with
  | new =>
    rintro v (hmem | ⟨f, hf, name, hmem⟩)
    · cases hmem
    · obtain rfl := List.mem_singleton.1 hf
      cases hmem
  | @exec m source code hcode h ih =>
    have hends := run_ends (closes_of_compile hcode) ih
    unfold Machine.exec
    cases houtcome : m.run code with
    | ok m' =>
      rw [houtcome] at hends
      exact hends.1
    | error stop =>
      rw [houtcome] at hends
      exact hends.2
  | @popResult m h ih =>
    unfold Machine.popResult
    split
    · next v rest hoperands => exact (ih.operands hoperands).2
    · exact ih

/-- In a session, whatever was run before, a program fails for want of an operand or because it goes
too deep, and for no other reason.  On the way, every routine that the machine holds has some code;
and what a program says, a block or a branch for one, and a call end with as many frames open as
there were. -/
theorem wellScoped [Limits] (h : Session seed m) {source : String} {code : List Instr}
    (hcode : compileSource source = .ok code) :
    (∀ fault m', m.run code = .error (fault, m') →
      fault = .tooDeep ∨ ∃ i, fault = .missingOperand i) ∧
    ∀ s, s = m ∨ Visits Limits.run code { m with operands := [], diagnostics := [] } s →
      (∀ body, s.Holds (.routine body) → body ≠ []) ∧
      (∀ e : Expr, e.Printable → ∀ depth s', execute depth e.code s = .ok s' →
        s'.scopes.depth = s.scopes.depth) ∧
      ∀ depth s', Instr.call.step (execute depth) s = .ok s' →
        s'.scopes.depth = s.scopes.depth := by
  have hclosed := closes_of_compile hcode
  have hm := h.all_scoped
  refine ⟨fun fault m' hfault => ?_, fun s hs => ?_⟩
  · have hends := run_ends hclosed hm
    rw [hfault] at hends
    cases fault with
    | tooDeep => exact .inl rfl
    | missingOperand i => exact .inr ⟨i, rfl⟩
    | globalScope | unknown | noComparison => cases hends.1
  · have hscoped : s.All Value.Scoped := by
      rcases hs with rfl | hvisits
      · exact hm
      · exact hvisits.scoped hclosed rfl hm.bare
    refine ⟨fun body hheld => (hscoped _ hheld).1, fun e he depth s' hrun => ?_,
      fun depth s' hrun => ?_⟩
    · exact execute_depth he.code_closes hscoped hrun
    · have hends := step_execute depth (i := .call) (n := 0) trivial rfl rfl hscoped
      rw [hrun] at hends
      exact hends.2

/-! ## A closure called in a later program -/

set_option maxRecDepth 4000 in
theorem tokensOf_closure : tokensOf "let f=()=>rand()" = .ok [
    ⟨.keyword .letWord, ⟨1, 1, 0⟩, ⟨1, 4, 3⟩⟩, ⟨.identifier "f", ⟨1, 5, 4⟩, ⟨1, 6, 5⟩⟩,
    ⟨.symbol .assign, ⟨1, 6, 5⟩, ⟨1, 7, 6⟩⟩, ⟨.symbol .openParen, ⟨1, 7, 6⟩, ⟨1, 8, 7⟩⟩,
    ⟨.symbol .closeParen, ⟨1, 8, 7⟩, ⟨1, 9, 8⟩⟩, ⟨.symbol .arrow, ⟨1, 9, 8⟩, ⟨1, 11, 10⟩⟩,
    ⟨.keyword .rand, ⟨1, 11, 10⟩, ⟨1, 15, 14⟩⟩, ⟨.symbol .openParen, ⟨1, 15, 14⟩, ⟨1, 16, 15⟩⟩,
    ⟨.symbol .closeParen, ⟨1, 16, 15⟩, ⟨1, 17, 16⟩⟩] := by
  cbv

set_option maxRecDepth 4000 in
theorem tokensOf_call : tokensOf "f()" = .ok [
    ⟨.identifier "f", ⟨1, 1, 0⟩, ⟨1, 2, 1⟩⟩, ⟨.symbol .openParen, ⟨1, 2, 1⟩, ⟨1, 3, 2⟩⟩,
    ⟨.symbol .closeParen, ⟨1, 3, 2⟩, ⟨1, 4, 3⟩⟩] := by
  cbv

theorem compileSource_closure : compileSource "let f=()=>rand()" =
    .ok [.pushRoutine [.pushRandom], .assign "f"] := by
  have hparse : parseSource "let f=()=>rand()" = .ok (.assign "f" (.closure [] .random)) := by
    rw [parseSource, tokensOf_closure]
    rfl
  exact compileSource_of_parse hparse

theorem compileSource_call : compileSource "f()" = .ok [.load "f", .call] := by
  have hparse : parseSource "f()" = .ok (.call "f" []) := by
    rw [parseSource, tokensOf_call]
    rfl
  exact compileSource_of_parse hparse

theorem wellScoped_call :
    (Machine.compute "let f=()=>rand()" (Machine.new 0)).2.Holds (.routine [.pushRandom]) ∧
      ∀ fault m', Machine.run [.load "f", .call]
          (Machine.compute "let f=()=>rand()" (Machine.new 0)).2 = .error (fault, m') →
        fault = .tooDeep ∨ ∃ i, fault = .missingOperand i := by
  have hnew : Session 0 (Machine.new 0) := .new
  refine ⟨?_, (wellScoped (hnew.compute _) compileSource_call).1⟩
  unfold Machine.compute
  rw [compileSource_closure]
  exact .inr ⟨_, List.mem_cons_self, "f", List.mem_cons_self⟩

end Session

end Calculator
