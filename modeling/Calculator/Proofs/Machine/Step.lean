import Calculator.Machine
import Calculator.Proofs.Bind

/-
  What one instruction can do.  It does something by itself (`Instr.Does`), it runs other code
  (`Instr.Runs`), or it stops with a fault of its own (`Instr.Stops`); `Instr.step_cases` says that
  one of the three is always so.  Code is executed one instruction after another
  (`execute_cons`, `execute_append`).
-/

namespace Calculator

namespace Instr

/-- How many operands an instruction takes. -/
def arity : Instr → Nat
  | arithmetic _ | compare _ => 2
  | assign _ | bind _ | unary _ | call | skipUnless _ | branch _ _ => 1
  | _ => 0

theorem arity_le (i : Instr) : i.arity ≤ 2 := by
  cases i <;> simp [arity]

/-- What an instruction does by itself. -/
inductive Does : Instr → Machine → Machine → Prop
  | push (x : Number) (m : Machine) : Does (.push x) m (m.push (.number x))
  | pushRandom (m : Machine) : Does .pushRandom m
      ({ m with generator := m.generator.next.2 }.push (.number m.generator.next.1))
  | load (name : String) (m : Machine) : Does (.load name) m (m.load name)
  | assign {name : String} {m : Machine} {v : Value} {rest : List Value}
      (h : m.operands = v :: rest) :
      Does (.assign name) m { m with operands := rest, scopes := m.scopes.assign name v }
  | bind {name : String} {m : Machine} {v : Value} {rest : List Value}
      (h : m.operands = v :: rest) :
      Does (.bind name) m { m with operands := rest, scopes := m.scopes.bind name v }
  | arithmetic {op : Arithmetic} {m : Machine} {right left : Value} {rest : List Value}
      (h : m.operands = right :: left :: rest) : Does (.arithmetic op) m
      { m with operands := .number (op.apply left.toNumber right.toNumber) :: rest }
  | compare {place : Int} {c : Comparison} {m : Machine} {right left : Value} {rest : List Value}
      (h : m.operands = right :: left :: rest) (hc : Comparison.ofPlace? place = some c) :
      Does (.compare place) m
      { m with operands := .number (c.apply left.toNumber right.toNumber) :: rest }
  | unary {op : Unary} {m : Machine} {v : Value} {rest : List Value}
      (h : m.operands = v :: rest) :
      Does (.unary op) m { m with operands := .number (op.apply v.toNumber) :: rest }
  | pushRoutine (body : List Instr) (m : Machine) :
      Does (.pushRoutine body) m (m.push (.routine body))
  | call {m : Machine} {x : Number} {rest : List Value} (h : m.operands = .number x :: rest) :
      Does .call m ({ m with operands := rest }.note (.notCallable x))
  | skipUnless {body : List Instr} {m : Machine} {v : Value} {rest : List Value}
      (h : m.operands = v :: rest) (hv : (v.toNumber != 0) = false) :
      Does (.skipUnless body) m { m with operands := rest }
  | enter (m : Machine) : Does .enter m { m with scopes := m.scopes.enter }
  | leave {m : Machine} {scopes : Scopes} (h : m.scopes.leave? = some scopes) :
      Does .leave m { m with scopes }

/-- The code that an instruction runs, and the machine that it runs on. -/
inductive Runs : Instr → Machine → List Instr → Machine → Prop
  | call {m : Machine} {body : List Instr} {rest : List Value}
      (h : m.operands = .routine body :: rest) :
      Runs .call m body { m with operands := rest, scopes := m.scopes.enter }
  | skipUnless {body : List Instr} {m : Machine} {v : Value} {rest : List Value}
      (h : m.operands = v :: rest) (hv : (v.toNumber != 0) = true) :
      Runs (.skipUnless body) m body { m with operands := rest }
  | consequent {body alternate : List Instr} {m : Machine} {v : Value} {rest : List Value}
      (h : m.operands = v :: rest) (hv : (v.toNumber != 0) = true) :
      Runs (.branch body alternate) m body { m with operands := rest }
  | alternate {consequent body : List Instr} {m : Machine} {v : Value} {rest : List Value}
      (h : m.operands = v :: rest) (hv : (v.toNumber != 0) = false) :
      Runs (.branch consequent body) m body { m with operands := rest }

/-- The machine after an instruction that ran other code: a call closes the frames that it opened. -/
def closing (i : Instr) (before after : Machine) : Machine :=
  match i with
  | call => after.keep before.scopes.depth
  | _ => after

/-- The outcome of an instruction that ran other code. -/
def outcome (i : Instr) (before : Machine) : Outcome → Outcome
  | .ok after => .ok (i.closing before after)
  | .error (fault, after) => .error (fault, i.closing before after)

/-- Why an instruction stops by itself, and the machine then. -/
inductive Stops : Instr → Machine → RunFault → Machine → Prop
  | lacking {i : Instr} {m : Machine} (h : m.operands.length < i.arity) :
      Stops i m i.lacking { m with operands := [] }
  | noComparison {place : Int} {m : Machine} {right left : Value} {rest : List Value}
      (h : m.operands = right :: left :: rest) (hc : Comparison.ofPlace? place = none) :
      Stops (.compare place) m (.noComparison place) { m with operands := rest }
  | globalScope {m : Machine} (h : m.scopes.leave? = none) : Stops .leave m .globalScope m
  | unknown (mnemonic : String) (m : Machine) :
      Stops (.unknown mnemonic) m (.unknown (.unknown mnemonic)) m

end Instr

/-! ## Operands -/

namespace Machine

variable {m : Machine} {v : Value} {rest : List Value}

theorem pop_cons (h : m.operands = v :: rest) (i : Instr) :
    m.pop i = .ok (v, { m with operands := rest }) := by
  rw [pop, h]

theorem pop_nil (h : m.operands = []) (i : Instr) : m.pop i = .error (i.lacking, m) := by
  rw [pop, h]

theorem popNumber_cons (h : m.operands = v :: rest) (i : Instr) :
    m.popNumber i = .ok (v.toNumber, { m with operands := rest }) := by
  rw [popNumber, pop_cons h]
  rfl

theorem popNumber_nil (h : m.operands = []) (i : Instr) :
    m.popNumber i = .error (i.lacking, m) := by
  rw [popNumber, pop_nil h]
  rfl

theorem with_no_operands (h : m.operands = []) : { m with operands := [] } = m := by
  cases m
  cases h
  rfl

end Machine

namespace Instr

open Machine

variable {run : List Instr → Machine → Outcome} {i : Instr} {m m' m₀ : Machine}

/-! ## One step -/

theorem Does.step (h : Does i m m') : i.step run m = .ok m' := by
  cases h with
  | push x | pushRandom | load name | pushRoutine body | enter => rfl
  | assign h | bind h | call h =>
    unfold Instr.step
    rw [pop_cons h]
    rfl
  | unary h =>
    unfold Instr.step
    rw [popNumber_cons h]
    rfl
  | arithmetic h =>
    unfold Instr.step
    rw [popNumber_cons h]
    rfl
  | @compare place c _ right left rest h hc =>
    unfold Instr.step
    dsimp only
    rw [popNumber_cons h, hc]
    rfl
  | skipUnless h hv =>
    unfold Instr.step
    rw [popNumber_cons h]
    exact if_neg (by simp [hv])
  | leave h =>
    unfold Instr.step
    rw [h]

theorem outcome_of_ne {before : Machine} (h : i ≠ .call) (o : Outcome) :
    i.outcome before o = o := by
  cases i with
  | call => exact absurd rfl h
  | _ => cases o <;> rfl

theorem Runs.step {body : List Instr} (h : Runs i m body m₀) :
    i.step run m = i.outcome m (run body m₀) := by
  cases h with
  | @call _ body rest h =>
    unfold Instr.step
    dsimp only
    rw [pop_cons h]
    change keepAfter _ (run body _) = _
    cases run body { m with operands := rest, scopes := m.scopes.enter } <;> rfl
  | skipUnless h hv | consequent h hv =>
    rw [outcome_of_ne (by simp)]
    unfold Instr.step
    dsimp only
    rw [popNumber_cons h]
    exact if_pos hv
  | alternate h hv =>
    rw [outcome_of_ne (by simp)]
    unfold Instr.step
    dsimp only
    rw [popNumber_cons h]
    exact if_neg (by simp [hv])

theorem Stops.step {fault : RunFault} (h : Stops i m fault m') :
    i.step run m = .error (fault, m') := by
  cases h with
  | lacking h =>
    rcases hm : m.operands with _ | ⟨v, _ | ⟨w, rest⟩⟩
    · rw [hm, List.length_nil] at h
      rw [with_no_operands hm]
      cases i with
      | assign name | bind name | call =>
        unfold Instr.step
        dsimp only
        rw [pop_nil hm]
        rfl
      | arithmetic op | compare place | unary op | skipUnless body | branch body alternate =>
        unfold Instr.step
        dsimp only
        rw [popNumber_nil hm]
        rfl
      | _ => cases h
    · rw [hm] at h
      cases i with
      | arithmetic op | compare place =>
        unfold Instr.step
        dsimp only
        rw [popNumber_cons hm]
        rfl
      | _ => exact absurd h (by simp [arity])
    · rw [hm, List.length_cons, List.length_cons] at h
      have := i.arity_le
      omega
  | @noComparison place _ right left rest h hc =>
    unfold Instr.step
    dsimp only
    rw [popNumber_cons h, hc]
    rfl
  | globalScope h =>
    unfold Instr.step
    dsimp only
    rw [h]
  | unknown => rfl

/-- An instruction does something by itself, runs other code, or stops. -/
theorem step_cases (i : Instr) (m : Machine) : (∃ m', Does i m m') ∨
    (∃ body m₀, Runs i m body m₀) ∨ ∃ fault m', Stops i m fault m' := by
  by_cases hlack : m.operands.length < i.arity
  · exact .inr (.inr ⟨_, _, .lacking hlack⟩)
  have hone {n : Nat} (h : i.arity = n + 1) : ∃ v rest, m.operands = v :: rest := by
    apply List.exists_cons_of_length_pos
    omega
  have htwo (h : i.arity = 2) : ∃ right left rest, m.operands = right :: left :: rest := by
    obtain ⟨right, rest, hrest⟩ := hone h
    rw [hrest, List.length_cons] at hlack
    obtain ⟨left, rest, rfl⟩ := List.exists_cons_of_length_pos (l := rest) (by omega)
    exact ⟨right, left, rest, hrest⟩
  cases i with
  | push x => exact .inl ⟨_, .push x m⟩
  | pushRandom => exact .inl ⟨_, .pushRandom m⟩
  | load name => exact .inl ⟨_, .load name m⟩
  | assign name =>
    obtain ⟨v, rest, h⟩ := hone rfl
    exact .inl ⟨_, .assign h⟩
  | bind name =>
    obtain ⟨v, rest, h⟩ := hone rfl
    exact .inl ⟨_, .bind h⟩
  | arithmetic op =>
    obtain ⟨right, left, rest, h⟩ := htwo rfl
    exact .inl ⟨_, .arithmetic h⟩
  | compare place =>
    obtain ⟨right, left, rest, h⟩ := htwo rfl
    cases hc : Comparison.ofPlace? place with
    | none => exact .inr (.inr ⟨_, _, .noComparison h hc⟩)
    | some c => exact .inl ⟨_, .compare h hc⟩
  | unary op =>
    obtain ⟨v, rest, h⟩ := hone rfl
    exact .inl ⟨_, .unary h⟩
  | pushRoutine body => exact .inl ⟨_, .pushRoutine body m⟩
  | call =>
    obtain ⟨v, rest, h⟩ := hone rfl
    cases v with
    | number x => exact .inl ⟨_, .call h⟩
    | routine body => exact .inr (.inl ⟨_, _, .call h⟩)
  | skipUnless body =>
    obtain ⟨v, rest, h⟩ := hone rfl
    cases hv : v.toNumber != 0 with
    | true => exact .inr (.inl ⟨_, _, .skipUnless h hv⟩)
    | false => exact .inl ⟨_, .skipUnless h hv⟩
  | branch consequent alternate =>
    obtain ⟨v, rest, h⟩ := hone rfl
    cases hv : v.toNumber != 0 with
    | true => exact .inr (.inl ⟨_, _, .consequent h hv⟩)
    | false => exact .inr (.inl ⟨_, _, .alternate h hv⟩)
  | enter => exact .inl ⟨_, .enter m⟩
  | leave =>
    cases h : m.scopes.leave? with
    | none => exact .inr (.inr ⟨_, _, .globalScope h⟩)
    | some scopes => exact .inl ⟨_, .leave h⟩
  | unknown mnemonic => exact .inr (.inr ⟨_, _, .unknown mnemonic m⟩)

/-- What a step that succeeds did. -/
theorem step_eq_ok : i.step run m = .ok m' ↔ Does i m m' ∨
    ∃ body m₀ m₁, Runs i m body m₀ ∧ run body m₀ = .ok m₁ ∧ i.closing m m₁ = m' := by
  constructor
  · intro h
    rcases step_cases i m with ⟨m₁, hdoes⟩ | ⟨body, m₀, hruns⟩ | ⟨fault, m₁, hstops⟩
    · obtain rfl := Except.ok.inj (hdoes.step.symm.trans h)
      exact .inl hdoes
    · rw [hruns.step] at h
      cases hrun : run body m₀ with
      | ok m₁ => rw [hrun] at h; exact .inr ⟨body, m₀, m₁, hruns, hrun, Except.ok.inj h⟩
      | error stop => rw [hrun] at h; cases h
    · cases hstops.step.symm.trans h
  · rintro (hdoes | ⟨body, m₀, m₁, hruns, hrun, rfl⟩)
    · exact hdoes.step
    · rw [hruns.step, hrun]
      rfl

/-- Why a step that fails did. -/
theorem step_eq_error {fault : RunFault} : i.step run m = .error (fault, m') ↔
    Stops i m fault m' ∨
      ∃ body m₀ m₁, Runs i m body m₀ ∧ run body m₀ = .error (fault, m₁) ∧ i.closing m m₁ = m' := by
  constructor
  · intro h
    rcases step_cases i m with ⟨m₁, hdoes⟩ | ⟨body, m₀, hruns⟩ | ⟨fault', m₁, hstops⟩
    · cases hdoes.step.symm.trans h
    · rw [hruns.step] at h
      cases hrun : run body m₀ with
      | ok m₁ => rw [hrun] at h; cases h
      | error stop =>
        rw [hrun] at h
        obtain ⟨fault', m₁⟩ := stop
        obtain ⟨rfl, rfl⟩ := Prod.mk.inj (Except.error.inj h)
        exact .inr ⟨body, m₀, m₁, hruns, hrun, rfl⟩
    · obtain ⟨rfl, rfl⟩ := Prod.mk.inj (Except.error.inj (hstops.step.symm.trans h))
      exact .inl hstops
  · rintro (hstops | ⟨body, m₀, m₁, hruns, hrun, rfl⟩)
    · exact hstops.step
    · rw [hruns.step, hrun]
      rfl

end Instr

/-! ## Code -/

namespace Machine

variable {depth : Nat} {i : Instr} {code : List Instr} {m m' : Machine}

theorem execute_cons : execute (depth + 1) (i :: code) m =
    (i.step (execute depth) m >>= execute (depth + 1) code) := rfl

theorem execute_append (depth : Nat) (code after : List Instr) (m : Machine) :
    execute depth (code ++ after) m = (execute depth code m >>= execute depth after) := by
  cases depth with
  | zero => rfl
  | succ depth =>
    induction code generalizing m with
    | nil => rfl
    | cons i code ih =>
      rw [List.cons_append, execute_cons, execute_cons]
      cases i.step (execute depth) m with
      | error stop => rfl
      | ok m => exact ih m

end Machine

end Calculator
