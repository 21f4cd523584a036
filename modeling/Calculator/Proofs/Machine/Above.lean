import Calculator.Proofs.Machine.Step

/-
  What code does not notice.  Code that succeeds on some operands does the same above any others: it
  leaves those where they are, and everything else comes out as before (`execute_above`).  So does
  code that fails, unless it is for want of an operand (`execute_above_error`).  Nor does code notice
  the diagnostics before its own (`execute_noted`).
-/

namespace Calculator

namespace Machine

/-- A machine whose operands lie above others. -/
def above (below : List Value) (m : Machine) : Machine :=
  { m with operands := m.operands ++ below }

/-- A machine whose diagnostics come after others. -/
def noted (before : List Diagnostic) (m : Machine) : Machine :=
  { m with diagnostics := before ++ m.diagnostics }

variable {below : List Value} {before : List Diagnostic} {m m' : Machine}

theorem operands_above {v : Value} {rest : List Value} (h : m.operands = v :: rest) :
    (m.above below).operands = v :: (rest ++ below) := by
  unfold above
  rw [h, List.cons_append]

theorem load_above (name : String) : (m.above below).load name = (m.load name).above below := by
  unfold load above
  dsimp only
  split <;> rfl

theorem note_noted (d : Diagnostic) : (m.noted before).note d = (m.note d).noted before := by
  unfold note noted
  rw [List.append_assoc]

theorem load_noted (name : String) : (m.noted before).load name = (m.load name).noted before := by
  unfold load
  dsimp only [noted]
  split
  · rfl
  · exact congrArg (·.push (.number 0)) (note_noted _)

end Machine

/-- A change of machines that code does not notice: what an instruction does or runs before the
change, it does or runs after it. -/
structure Unnoticed (change : Machine → Machine) : Prop where
  does : ∀ {i m m'}, Instr.Does i m m' → Instr.Does i (change m) (change m')
  runs : ∀ {i m body m₀}, Instr.Runs i m body m₀ → Instr.Runs i (change m) body (change m₀)
  closing : ∀ (i : Instr) (m m' : Machine),
    i.closing (change m) (change m') = change (i.closing m m')

namespace Instr

open Machine

variable {below : List Value} {before : List Diagnostic} {i : Instr} {m m' m₀ : Machine}

theorem Does.above (h : Does i m m') : Does i (m.above below) (m'.above below) := by
  cases h with
  | push x => exact .push x _
  | pushRandom => exact .pushRandom _
  | load name =>
    rw [← load_above]
    exact .load name _
  | assign h => exact .assign (operands_above h)
  | bind h => exact .bind (operands_above h)
  | arithmetic h => exact .arithmetic (operands_above h)
  | compare h hc => exact .compare (operands_above h) hc
  | unary h => exact .unary (operands_above h)
  | pushRoutine body => exact .pushRoutine body _
  | call h => exact .call (operands_above h)
  | skipUnless h hv => exact .skipUnless (operands_above h) hv
  | enter => exact .enter _
  | leave h => exact .leave h

theorem Runs.above {body : List Instr} (h : Runs i m body m₀) :
    Runs i (m.above below) body (m₀.above below) := by
  cases h with
  | call h => exact .call (operands_above h)
  | skipUnless h hv => exact .skipUnless (operands_above h) hv
  | consequent h hv => exact .consequent (operands_above h) hv
  | alternate h hv => exact .alternate (operands_above h) hv

/-- An instruction stops above other operands as it does without them, unless it lacks some. -/
theorem Stops.above {fault : RunFault} (h : Stops i m fault m') :
    (fault = i.lacking ∧ m'.operands = []) ∨
      Stops i (m.above below) fault (m'.above below) := by
  cases h with
  | lacking h => exact .inl ⟨rfl, rfl⟩
  | noComparison h hc => exact .inr (.noComparison (operands_above h) hc)
  | globalScope h => exact .inr (.globalScope h)
  | unknown mnemonic => exact .inr (.unknown mnemonic _)

theorem Does.noted (h : Does i m m') : Does i (m.noted before) (m'.noted before) := by
  cases h with
  | push x => exact .push x _
  | pushRandom => exact .pushRandom _
  | load name =>
    rw [← load_noted]
    exact .load name _
  | assign h => exact .assign h
  | bind h => exact .bind h
  | arithmetic h => exact .arithmetic h
  | compare h hc => exact .compare h hc
  | unary h => exact .unary h
  | pushRoutine body => exact .pushRoutine body _
  | call h =>
    rw [← note_noted]
    exact .call h
  | skipUnless h hv => exact .skipUnless h hv
  | enter => exact .enter _
  | leave h => exact .leave h

theorem Runs.noted {body : List Instr} (h : Runs i m body m₀) :
    Runs i (m.noted before) body (m₀.noted before) := by
  cases h with
  | call h => exact .call h
  | skipUnless h hv => exact .skipUnless h hv
  | consequent h hv => exact .consequent h hv
  | alternate h hv => exact .alternate h hv

end Instr

namespace Unnoticed

open Machine Instr

theorem above (below : List Value) : Unnoticed (Machine.above below) where
  does := Does.above
  runs := Runs.above
  closing i m m' := by cases i <;> rfl

theorem noted (before : List Diagnostic) : Unnoticed (Machine.noted before) where
  does := Does.noted
  runs := Runs.noted
  closing i m m' := by cases i <;> rfl

variable {change : Machine → Machine}

/-- An instruction that succeeds does the same after a change that the code inside it does not
notice. -/
theorem step (hchange : Unnoticed change) {run : List Instr → Machine → Outcome}
    {i : Instr} {m m' : Machine} (h : i.step run m = .ok m')
    (hrun : ∀ body m₀ m₁, run body m₀ = .ok m₁ → run body (change m₀) = .ok (change m₁)) :
    i.step run (change m) = .ok (change m') := by
  refine step_eq_ok.2 ?_
  rcases step_eq_ok.1 h with hdoes | ⟨body, m₀, m₁, hruns, hbody, rfl⟩
  · exact .inl (hchange.does hdoes)
  · exact .inr ⟨body, _, _, hchange.runs hruns, hrun _ _ _ hbody, hchange.closing i m m₁⟩

/-- Code that succeeds does the same after a change that it does not notice. -/
theorem execute (hchange : Unnoticed change) {depth : Nat} {code : List Instr} {m m' : Machine}
    (h : Machine.execute depth code m = .ok m') :
    Machine.execute depth code (change m) = .ok (change m') := by
  induction depth generalizing code m m' with
  | zero => cases h
  | succ depth ih =>
    induction code generalizing m with
    | nil =>
      cases h
      rfl
    | cons i code ihCode =>
      obtain ⟨m₁, hstep, hrest⟩ := bind_eq_ok.1 h
      exact bind_eq_ok.2 ⟨change m₁, hchange.step hstep fun _ _ _ => ih, ihCode hrest⟩

end Unnoticed

namespace Machine

/-- Code that succeeds does the same above other operands, and leaves them where they are. -/
theorem execute_above {depth : Nat} {code : List Instr} {m m' : Machine}
    (h : execute depth code m = .ok m') (below : List Value) :
    execute depth code (m.above below) = .ok (m'.above below) :=
  (Unnoticed.above below).execute h

/-- It does the same after other diagnostics, and leaves them where they are. -/
theorem execute_noted {depth : Nat} {code : List Instr} {m m' : Machine}
    (h : execute depth code m = .ok m') (before : List Diagnostic) :
    execute depth code (m.noted before) = .ok (m'.noted before) :=
  (Unnoticed.noted before).execute h

/-- Code that fails does the same above other operands, unless it ran out of operands. -/
theorem execute_above_error {depth : Nat} {code : List Instr} {m m' : Machine} {fault : RunFault}
    (h : execute depth code m = .error (fault, m')) (below : List Value) :
    (∃ i : Instr, fault = i.lacking ∧ m'.operands = []) ∨
      execute depth code (m.above below) = .error (fault, m'.above below) := by
  induction depth generalizing code m m' with
  | zero =>
    cases h
    exact .inr rfl
  | succ depth ih =>
    induction code generalizing m with
    | nil => cases h
    | cons i code ihCode =>
      rw [execute_cons] at h ⊢
      cases hstep : i.step (execute depth) m with
      | ok m₁ =>
        have habove := (Unnoticed.above below).step hstep fun _ _ _ h => execute_above h below
        rw [hstep] at h
        rw [habove]
        exact ihCode h
      | error stop =>
        rw [hstep] at h
        obtain rfl := Except.error.inj h
        rcases Instr.step_eq_error.1 hstep with hstops | ⟨body, m₀, m₁, hruns, hbody, rfl⟩
        · rcases hstops.above with ⟨rfl, hempty⟩ | hstops
          · exact .inl ⟨i, rfl, hempty⟩
          · refine .inr ?_
            rw [hstops.step]
            rfl
        · -- An instruction that runs code fails as that code does; closing frames moves no operand.
          have hclosing := (Unnoticed.above below).closing i m m₁
          rcases ih hbody with ⟨j, rfl, hempty⟩ | hbody
          · refine .inl ⟨j, rfl, ?_⟩
            cases i <;> exact hempty
          · refine .inr ?_
            rw [Instr.step_eq_error.2 (.inr ⟨body, _, _, hruns.above, hbody, hclosing⟩)]
            rfl

/-- Operands that code does not take make no difference: what it does on some operands, it does above
any others, which it leaves where they are.  The one exception is to run out of operands. -/
theorem execute_unread (depth : Nat) (code : List Instr) (m : Machine) (below : List Value) :
    (∀ m', execute depth code m = .ok m' →
      execute depth code { m with operands := m.operands ++ below } =
        .ok { m' with operands := m'.operands ++ below }) ∧
    ∀ fault m', execute depth code m = .error (fault, m') →
      (∃ i : Instr, fault = i.lacking ∧ m'.operands = []) ∨
        execute depth code { m with operands := m.operands ++ below } =
          .error (fault, { m' with operands := m'.operands ++ below }) :=
  ⟨fun _ h => execute_above h below, fun _ _ h => execute_above_error h below⟩

/-- A machine on which `f` is a routine that subtracts its last operand from the one before. -/
def withSubtraction (operands : List Value) : Machine where
  operands
  scopes := { globals := [("f", .routine [.arithmetic .sub])] }
  generator := ⟨#[], 0⟩

/-- The difference of `7` and `2` is the same above `1`. -/
theorem execute_unread_routine :
    execute 2 [.load "f", .call] (withSubtraction [.number 2, .number 7]) =
        .ok (withSubtraction [.number (7 - 2)]) ∧
      execute 2 [.load "f", .call] (withSubtraction [.number 2, .number 7, .number 1]) =
        .ok (withSubtraction [.number (7 - 2), .number 1]) :=
  ⟨rfl, (execute_unread 2 [.load "f", .call] (withSubtraction [.number 2, .number 7])
    [.number 1]).1 _ rfl⟩

end Machine

end Calculator
