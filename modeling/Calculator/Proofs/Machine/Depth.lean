import Calculator.Proofs.Machine.Step

/-
  The limit for running.  Code that may run so deep stops because of the limit or does what it does
  where it may run deeper (`execute_refines`), so the limit decides nothing but whether a run goes on.
-/

namespace Calculator

/-- A run stops because it is too deep, or is the other one. -/
def Outcome.Refines (o o' : Outcome) : Prop := (∃ m, o = .error (.tooDeep, m)) ∨ o = o'

namespace Outcome.Refines

theorem refl (o : Outcome) : o.Refines o := .inr rfl

theorem trans {o₁ o₂ o₃ : Outcome} (h : o₁.Refines o₂) (h' : o₂.Refines o₃) : o₁.Refines o₃ := by
  rcases h with h | rfl
  · exact .inl h
  · exact h'

theorem bind {o o' : Outcome} {f g : Machine → Outcome} (h : o.Refines o')
    (hf : ∀ m, (f m).Refines (g m)) : Outcome.Refines (o >>= f) (o' >>= g) := by
  rcases h with ⟨m, rfl⟩ | rfl
  · exact .inl ⟨m, rfl⟩
  · cases o with
    | ok m => exact hf m
    | error stop => exact .inr rfl

end Outcome.Refines

section Refines

variable {run run' : List Instr → Machine → Outcome}
  (h : ∀ code m, (run code m).Refines (run' code m))
include h

namespace Instr

theorem step_refines (i : Instr) (m : Machine) : (i.step run m).Refines (i.step run' m) := by
  rcases step_cases i m with ⟨m', hdoes⟩ | ⟨body, m₀, hruns⟩ | ⟨fault, m', hstops⟩
  · rw [hdoes.step, hdoes.step]
    exact .refl _
  · rw [hruns.step, hruns.step]
    rcases h body m₀ with ⟨m', hdeep⟩ | hsame
    · rw [hdeep]
      exact .inl ⟨i.closing m m', rfl⟩
    · rw [hsame]
      exact .refl _
  · rw [hstops.step, hstops.step]
    exact .refl _

end Instr

namespace Machine

theorem sequence_refines (code : List Instr) (m : Machine) :
    (sequence run code m).Refines (sequence run' code m) := by
  induction code generalizing m with
  | nil => exact .refl _
  | cons i code ih => exact (Instr.step_refines h i m).bind ih

end Machine

end Refines

namespace Machine

/-- One more level of depth. -/
theorem execute_refines_succ (depth : Nat) (code : List Instr) (m : Machine) :
    (execute depth code m).Refines (execute (depth + 1) code m) := by
  induction depth generalizing code m with
  | zero => exact .inl ⟨m, rfl⟩
  | succ depth ih => exact sequence_refines ih code m

/-- Running less deep stops because of that, or does what running deeper does. -/
theorem execute_refines {depth depth' : Nat} (h : depth ≤ depth') (code : List Instr)
    (m : Machine) : (execute depth code m).Refines (execute depth' code m) := by
  induction h with
  | refl => exact .refl _
  | step h ih => exact ih.trans (execute_refines_succ _ code m)

/-- So does a program. -/
theorem runWithin_refines {depth depth' : Nat} (h : depth ≤ depth') (code : List Instr)
    (m : Machine) : (runWithin depth code m).Refines (runWithin depth' code m) := by
  unfold runWithin
  rcases execute_refines h code { m with operands := [], diagnostics := [] } with ⟨m', hdeep⟩ | hsame
  · rw [hdeep]
    exact .inl ⟨m'.keep m.scopes.depth, rfl⟩
  · rw [hsame]
    exact .refl _

end Machine

end Calculator
