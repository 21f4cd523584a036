import Calculator.Proofs.Code.Scoped
import Calculator.Proofs.Machine.Held
import Calculator.Proofs.Machine.Step

/-
  Running code that closes the frames that it opens.  Where every routine that a machine holds is
  such code, and not empty, such code runs to an end with as many frames as it has to leave open, or
  stops for want of an operand or because it is too deep (`execute_scoped`); and whatever machine it
  comes by on the way holds such routines only (`Visits.scoped`).
-/

namespace Calculator

/-- A routine has some code, and the code closes the frames that it opens. -/
def Value.Scoped : Value → Prop
  | number _ => True
  | routine body => body ≠ [] ∧ Instr.Closes body 0

/-- The faults that the code of a program may have. -/
def RunFault.Usual : RunFault → Prop
  | missingOperand _ | tooDeep => True
  | _ => False

/-- A run that ends with so many frames open, or stops with a usual fault, and holds scoped routines
only. -/
def Outcome.Ends (depth : Nat) : Outcome → Prop
  | .ok m => m.All Value.Scoped ∧ m.scopes.depth = depth
  | .error (fault, m) => fault.Usual ∧ m.All Value.Scoped

namespace Instr

open Machine

variable {i : Instr} {m m' m₀ : Machine} {base n k : Nat}

/-! ## One instruction -/

/-- What an instruction does by itself brings in numbers and the routine that it pushes only. -/
theorem Does.all {p : Value → Prop} (h : Does i m m') (hnumber : ∀ x, p (.number x))
    (hroutine : ∀ body, i = .pushRoutine body → p (.routine body)) (hm : m.All p) : m'.All p := by
  cases h with
  | push x => exact hm.push (hnumber x)
  | pushRandom => exact All.push (m := { m with generator := m.generator.next.2 }) hm (hnumber _)
  | load name => exact hm.load (hnumber 0) name
  | assign h =>
    obtain ⟨hv, hrest⟩ := hm.operands h
    exact hrest.assign hv _
  | bind h =>
    obtain ⟨hv, hrest⟩ := hm.operands h
    exact hrest.bind hv _
  | arithmetic h | compare h =>
    obtain ⟨-, hrest⟩ := hm.operands h
    obtain ⟨-, hrest⟩ := hrest.operands rfl
    exact hrest.push (hnumber _)
  | unary h =>
    obtain ⟨-, hrest⟩ := hm.operands h
    exact hrest.push (hnumber _)
  | pushRoutine body => exact hm.push (hroutine body rfl)
  | call h => exact (hm.operands h).2
  | skipUnless h => exact (hm.operands h).2
  | enter => exact hm.enter
  | leave h => exact hm.leave h

/-- Code inside starts with the values that there are. -/
theorem Runs.all {p : Value → Prop} {body : List Instr} (h : Runs i m body m₀) (hm : m.All p) :
    m₀.All p := by
  cases h with
  | call h => exact (hm.operands h).2.enter
  | skipUnless h | consequent h | alternate h => exact (hm.operands h).2

theorem closing_all {p : Value → Prop} (i : Instr) (m : Machine) (h : m'.All p) :
    (i.closing m m').All p := by
  unfold Instr.closing
  split
  · exact h.keep _
  · exact h

theorem Does.scoped (h : Does i m m') (hi : i.Scoped) (hm : m.All Value.Scoped) :
    m'.All Value.Scoped := by
  refine h.all (fun _ => trivial) ?_ hm
  rintro body rfl
  exact hi

/-- What an instruction does by itself opens and closes frames as it should. -/
theorem Does.depth (h : Does i m m') (hopened : i.opened n = some k)
    (hdepth : m.scopes.depth = base + n) : m'.scopes.depth = base + k := by
  cases h with
  | enter =>
    cases hopened
    exact congrArg (· + 1) hdepth
  | @leave _ scopes h =>
    cases n with
    | zero => cases hopened
    | succ n =>
      cases hopened
      have hleft := Scopes.depth_leave h
      change scopes.depth = base + _
      omega
  | assign h =>
    cases hopened
    exact (Scopes.depth_assign _ _ _).trans hdepth
  | bind h =>
    cases hopened
    exact (Scopes.depth_bind _ _ _).trans hdepth
  | load name =>
    cases hopened
    unfold Machine.load
    split <;> exact hdepth
  | _ =>
    cases hopened
    exact hdepth

theorem Runs.scoped {body : List Instr} (h : Runs i m body m₀) (hi : i.Scoped)
    (hm : m.All Value.Scoped) : Closes body 0 ∧ m₀.All Value.Scoped := by
  refine ⟨?_, h.all hm⟩
  cases h with
  | call h => exact (hm.operands h).1.2
  | skipUnless h => exact hi
  | consequent h => exact hi.1
  | alternate h => exact hi.2

/-- The frames that code inside leaves open are closed after it. -/
theorem Runs.closing {body : List Instr} (h : Runs i m body m₀)
    (hdepth : m'.scopes.depth = m₀.scopes.depth) :
    (i.closing m m').scopes.depth = m.scopes.depth := by
  cases h with
  | call h =>
    have hentered : m'.scopes.depth = m.scopes.depth + 1 := hdepth
    change (m'.scopes.keep m.scopes.depth).depth = m.scopes.depth
    rw [Scopes.depth_keep, hentered]
    omega
  | skipUnless h | consequent h | alternate h => exact hdepth

theorem Runs.opened {body : List Instr} (h : Runs i m body m₀) (hopened : i.opened n = some k) :
    k = n := by
  cases h <;> cases hopened <;> rfl

theorem lacking_usual (hi : i.Scoped) : i.lacking.Usual := by
  cases i with
  | compare place =>
    obtain ⟨c, hc⟩ := Option.isSome_iff_exists.1 hi
    unfold lacking
    dsimp only
    rw [hc]
    trivial
  | _ => trivial

/-- An instruction stops only where operands are missing. -/
theorem Stops.scoped {fault : RunFault} (h : Stops i m fault m') (hi : i.Scoped)
    (hopened : i.opened n = some k) (hdepth : m.scopes.depth = base + n)
    (hm : m.All Value.Scoped) : fault.Usual ∧ m'.All Value.Scoped := by
  cases h with
  | lacking h => exact ⟨lacking_usual hi, hm.bare⟩
  | noComparison h hc =>
    obtain ⟨c, hc'⟩ := Option.isSome_iff_exists.1 hi
    cases hc.symm.trans hc'
  | globalScope h =>
    have hzero := Scopes.leave?_eq_none h
    obtain rfl : n = 0 := by omega
    cases hopened
  | unknown => cases hi

/-- One instruction, given that the code inside ends as it should. -/
theorem step_scoped {run : List Instr → Machine → Outcome}
    (hrun : ∀ body m, Closes body 0 → m.All Value.Scoped → (run body m).Ends m.scopes.depth)
    (hi : i.Scoped) (hopened : i.opened n = some k) (hdepth : m.scopes.depth = base + n)
    (hm : m.All Value.Scoped) : (i.step run m).Ends (base + k) := by
  rcases step_cases i m with ⟨m', hdoes⟩ | ⟨body, m₀, hruns⟩ | ⟨fault, m', hstops⟩
  · rw [hdoes.step]
    exact ⟨hdoes.scoped hi hm, hdoes.depth hopened hdepth⟩
  · rw [hruns.step]
    obtain ⟨hbody, hm₀⟩ := hruns.scoped hi hm
    have hends := hrun body m₀ hbody hm₀
    obtain rfl := hruns.opened hopened
    cases houtcome : run body m₀ with
    | ok m' =>
      rw [houtcome] at hends
      exact ⟨closing_all i m hends.1, (hruns.closing hends.2).trans hdepth⟩
    | error stop =>
      rw [houtcome] at hends
      exact ⟨hends.1, closing_all i m hends.2⟩
  · rw [hstops.step]
    exact hstops.scoped hi hopened hdepth hm

end Instr

namespace Machine

open Instr

/-! ## Code -/

/-- Code that has some frames to close closes them, and leaves those below open. -/
theorem execute_scoped {depth : Nat} {code : List Instr} {n base : Nat} {m : Machine}
    (hcode : Closes code n) (hdepth : m.scopes.depth = base + n) (hm : m.All Value.Scoped) :
    (execute depth code m).Ends base := by
  induction depth generalizing code n base m with
  | zero => exact ⟨trivial, hm⟩
  | succ depth ih =>
    induction code generalizing n m with
    | nil =>
      obtain rfl : n = 0 := hcode
      exact ⟨hm, hdepth⟩
    | cons i code ihCode =>
      obtain ⟨hi, k, hopened, hrest⟩ := hcode
      have hstep : (i.step (execute depth) m).Ends (base + k) :=
        step_scoped (fun body m hbody hm => ih hbody rfl hm) hi hopened hdepth hm
      rw [execute_cons]
      cases houtcome : i.step (execute depth) m with
      | ok m' =>
        rw [houtcome] at hstep
        exact ihCode hrest hstep.2 hstep.1
      | error stop =>
        rw [houtcome] at hstep
        exact hstep

/-- One instruction, where the code inside is executed. -/
theorem step_execute (depth : Nat) {i : Instr} {m : Machine} {n k base : Nat} (hi : i.Scoped)
    (hopened : i.opened n = some k) (hdepth : m.scopes.depth = base + n)
    (hm : m.All Value.Scoped) : (i.step (execute depth) m).Ends (base + k) :=
  step_scoped (fun _ _ hbody hm => execute_scoped hbody rfl hm) hi hopened hdepth hm

/-- Code that closes what it opens ends with as many frames open as there were. -/
theorem execute_depth {depth : Nat} {code : List Instr} {m m' : Machine} (hcode : Closes code 0)
    (hm : m.All Value.Scoped) (h : execute depth code m = .ok m') :
    m'.scopes.depth = m.scopes.depth := by
  have hends : (execute depth code m).Ends m.scopes.depth := execute_scoped hcode rfl hm
  rw [h] at hends
  exact hends.2

/-! ## Machines on the way -/

/-- The machines that code at most so deep comes by: the one it starts on, those before each
instruction and at the end, inside the code that an instruction runs, and where it stops. -/
inductive Visits : Nat → List Instr → Machine → Machine → Prop
  | start {depth : Nat} {code : List Instr} {m : Machine} : Visits depth code m m
  | next {depth : Nat} {i : Instr} {code : List Instr} {m m' s : Machine}
      (hstep : i.step (execute depth) m = .ok m') (h : Visits (depth + 1) code m' s) :
      Visits (depth + 1) (i :: code) m s
  | inside {depth : Nat} {i : Instr} {code body : List Instr} {m m₀ s : Machine}
      (hruns : i.Runs m body m₀) (h : Visits depth body m₀ s) : Visits (depth + 1) (i :: code) m s
  | stop {depth : Nat} {i : Instr} {code : List Instr} {m s : Machine} {fault : RunFault}
      (hstep : i.step (execute depth) m = .error (fault, s)) : Visits (depth + 1) (i :: code) m s

/-- The machine at the end of a run, or where it stops, is one that it comes by. -/
theorem visits_outcome {depth : Nat} {code : List Instr} {m m' : Machine}
    (h : execute depth code m = .ok m' ∨ ∃ fault, execute depth code m = .error (fault, m')) :
    Visits depth code m m' := by
  cases depth with
  | zero =>
    rcases h with h | ⟨fault, h⟩
    · cases h
    · cases h
      exact .start
  | succ depth =>
    induction code generalizing m with
    | nil =>
      rcases h with h | ⟨fault, h⟩
      · cases h
        exact .start
      · cases h
    | cons i code ih =>
      rw [execute_cons] at h
      cases hstep : i.step (execute depth) m with
      | ok m₁ =>
        rw [hstep] at h
        exact .next hstep (ih h)
      | error stop =>
        rw [hstep] at h
        rcases h with h | ⟨fault, h⟩
        · cases h
        · cases h
          exact .stop hstep

/-- Every machine on the way holds scoped routines only. -/
theorem Visits.scoped {depth : Nat} {code : List Instr} {m s : Machine} (h : Visits depth code m s)
    {n base : Nat} (hcode : Closes code n) (hdepth : m.scopes.depth = base + n)
    (hm : m.All Value.Scoped) : s.All Value.Scoped := by
  induction h generalizing n base with
  | start => exact hm
  | @next depth i _ _ _ _ hnext h ih =>
    obtain ⟨hi, k, hopened, hrest⟩ := hcode
    have hends := step_execute depth hi hopened hdepth hm
    rw [hnext] at hends
    exact ih hrest hends.2 hends.1
  | inside hruns h ih =>
    obtain ⟨hi, k, hopened, hrest⟩ := hcode
    obtain ⟨hbody, hm₀⟩ := hruns.scoped hi hm
    exact ih hbody rfl hm₀
  | @stop depth _ _ _ _ _ hstop =>
    obtain ⟨hi, k, hopened, hrest⟩ := hcode
    have hends := step_execute depth hi hopened hdepth hm
    rw [hstop] at hends
    exact hends.2

end Machine

end Calculator
