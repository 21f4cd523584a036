/-
  Steps that may fail.  A chain of steps gives a result just when each of them does; steps whose
  failures are known beforehand (`answer`) fail with the first of them.
-/

namespace Calculator

section Bind

variable {ε α β : Type} {x : Except ε α} {b : β}

theorem bind_eq_ok {f : α → Except ε β} :
    (x >>= f) = .ok b ↔ ∃ a, x = .ok a ∧ f a = .ok b := by
  cases x with
  | error fault => exact ⟨nofun, nofun⟩
  | ok a => exact ⟨fun h => ⟨a, rfl, h⟩, fun ⟨_, ha, h⟩ => by cases ha; exact h⟩

theorem map_eq_ok {f : α → β} : (f <$> x) = .ok b ↔ ∃ a, x = .ok a ∧ f a = b := by
  cases x with
  | error fault => exact ⟨nofun, nofun⟩
  | ok a =>
    refine ⟨fun h => ⟨a, rfl, Except.ok.inj h⟩, fun ⟨_, ha, h⟩ => ?_⟩
    cases ha
    exact congrArg _ h

theorem mapError_eq_ok {ε' : Type} {f : ε → ε'} {a : α} :
    x.mapError f = .ok a ↔ x = .ok a := by
  cases x with
  | error fault => exact ⟨nofun, nofun⟩
  | ok b => exact ⟨fun h => congrArg _ (Except.ok.inj h), fun h => congrArg _ (Except.ok.inj h)⟩

end Bind

section Answer

variable {ε α β : Type}

/-- A result, unless there is a reason why there is none. -/
def answer (fault : Option ε) (a : α) : Except ε α := fault.elim (.ok a) .error

theorem answer_map (fault : Option ε) (a : α) (f : α → β) :
    (answer fault a >>= fun a => pure (f a)) = answer fault (f a) := by
  cases fault <;> rfl

theorem answer_bind (fault fault' : Option ε) (a : α) (f : α → β) :
    (answer fault a >>= fun a => answer fault' (f a)) = answer (fault.or fault') (f a) := by
  cases fault <;> rfl

end Answer

end Calculator
