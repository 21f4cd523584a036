import Calculator.Proofs.Code.Append
import Calculator.Proofs.Machine.Step

/-
  Arguments and parameters.  Arguments put their values on the stack, the last one first, above
  whatever lies there (`LeavesEach`), and the parameters of a closure take values from it one after
  another, in a new frame (`execute_params`).  Nothing counts them: a call with fewer arguments than
  parameters goes on with the values that were on the stack before, and stops at the first parameter
  that finds none (`execute_call_short`, `arguments_not_apart`).
-/

namespace Calculator

namespace Frame

/-- A frame after names have taken a value each, as far as there are values. -/
def putAll (f : Frame) (names : List String) (values : List Value) : Frame :=
  (names.zip values).foldl (fun f item => f.put item.1 item.2) f

theorem putAll_nil (f : Frame) (names : List String) : f.putAll names [] = f := by
  rw [putAll, List.zip_nil_right]
  rfl

end Frame

namespace Machine

open Instr

/-- A machine with one more frame, and with other operands. -/
def within (m : Machine) (frame : Frame) (operands : List Value) : Machine :=
  { m with operands, scopes := { m.scopes with inner := frame :: m.scopes.inner } }

/-- Expressions that leave one value each, when they are evaluated from the last one to the first:
the values, and the machine after them. -/
inductive LeavesEach (depth : Nat) : Machine → List Expr → List Value → Machine → Prop where
  | nil (m : Machine) : LeavesEach depth m [] [] m
  | cons {m m₁ m₂ : Machine} {e : Expr} {es : List Expr} {v : Value} {vs : List Value}
      (hothers : LeavesEach depth m es vs m₁) (he : execute depth e.code m₁ = .ok m₂)
      (hv : m₂.operands = v :: m₁.operands) : LeavesEach depth m (e :: es) (v :: vs) m₂

variable {depth : Nat} {m m' : Machine} {frame : Frame} {values : List Value}

/-! ## Arguments -/

theorem LeavesEach.operands {es : List Expr} {vs : List Value} (h : LeavesEach depth m es vs m') :
    m'.operands = vs ++ m.operands := by
  induction h with
  | nil => rfl
  | cons hothers he hv ih => rw [hv, ih, List.cons_append]

theorem LeavesEach.length {es : List Expr} {vs : List Value} (h : LeavesEach depth m es vs m') :
    vs.length = es.length := by
  induction h with
  | nil => rfl
  | cons hothers he hv ih => rw [List.length_cons, List.length_cons, ih]

/-- The code of arguments leaves their values and goes on. -/
theorem LeavesEach.execute {es : List Expr} {vs : List Value} (h : LeavesEach depth m es vs m')
    (after : List Instr) :
    execute depth (Expr.codeBackOnto es after) m = execute depth after m' := by
  induction h generalizing after with
  | nil => rfl
  | cons hothers he hv ih =>
    rw [Expr.codeBackOnto, ih, Expr.codeOnto_eq, execute_append, he]
    rfl

/-! ## Parameters -/

/-- Parameters take the operands one after another, as long as there are enough of them. -/
theorem execute_params {params : List String} (h : params.length ≤ values.length)
    (code : List Instr) :
    execute (depth + 1) (params.map .bind ++ code) (m.within frame values) =
      execute (depth + 1) code
        (m.within (frame.putAll params values) (values.drop params.length)) := by
  induction params generalizing frame values with
  | nil => rfl
  | cons name params ih =>
    have hpos : 0 < values.length := Nat.lt_of_lt_of_le (Nat.succ_pos _) h
    obtain ⟨v, values, rfl⟩ := List.exists_cons_of_length_pos hpos
    have hbind : Does (.bind name) (m.within frame (v :: values))
        (m.within (frame.put name v) values) := .bind rfl
    rw [List.map_cons, List.cons_append, execute_cons, hbind.step]
    exact ih (Nat.le_of_succ_le_succ h)

/-- The first parameter that finds no operand stops the run. -/
theorem execute_params_short {params : List String} (h : values.length < params.length)
    (code : List Instr) :
    execute (depth + 1) (params.map .bind ++ code) (m.within frame values) =
      .error (.missingOperand (.bind params[values.length]),
        m.within (frame.putAll params values) []) := by
  induction params generalizing frame values with
  | nil => cases h
  | cons name params ih =>
    rw [List.map_cons, List.cons_append, execute_cons]
    cases values with
    | nil =>
      have hstops : Stops (.bind name) (m.within frame []) (.missingOperand (.bind name))
          (m.within frame []) := .lacking Nat.one_pos
      rw [hstops.step, Frame.putAll_nil]
      rfl
    | cons v values =>
      have hbind : Does (.bind name) (m.within frame (v :: values))
          (m.within (frame.put name v) values) := .bind rfl
      rw [hbind.step]
      exact ih (Nat.lt_of_succ_lt_succ h)

/-! ## Calls -/

/-- Closing the frame of a call leaves those that were open before. -/
theorem keep_within (m : Machine) (frame : Frame) (values : List Value) :
    (m.within frame values).keep m.scopes.depth = { m with operands := values } := by
  have hdrop : (frame :: m.scopes.inner).drop (m.scopes.inner.length + 1 - m.scopes.inner.length) =
      m.scopes.inner := by
    rw [Nat.add_sub_cancel_left]
    rfl
  rw [keep, Scopes.keep, within, Scopes.depth, List.length_cons]
  dsimp only
  rw [hdrop]

/-- A routine that is loaded and called runs on all operands there are, in a frame of its own. -/
theorem execute_load_call {name : String} {code : List Instr}
    (hname : m.scopes.find? name = some (.routine code)) (after : List Instr) :
    execute (depth + 1) (.load name :: .call :: after) m =
      (keepAfter m.scopes.depth (execute depth code (m.within [] m.operands)) >>=
        execute (depth + 1) after) := by
  have hload : m.load name = m.push (.routine code) := by rw [load, hname]
  have hcall : Runs .call (m.push (.routine code)) code (m.within [] m.operands) := .call rfl
  rw [execute_cons, (Does.load name m).step, hload]
  change execute (depth + 1) (.call :: after) (m.push (.routine code)) = _
  rw [execute_cons, hcall.step]
  cases execute depth code (m.within [] m.operands) <;> rfl

/-- A call runs the routine of its name on all operands there are, those of the arguments first, in
a frame of its own. -/
theorem execute_call {name : String} {arguments : List Expr} {code : List Instr}
    (hargs : LeavesEach (depth + 1) m arguments values m')
    (hname : m'.scopes.find? name = some (.routine code)) (after : List Instr) :
    execute (depth + 1) ((Expr.call name arguments).codeOnto after) m =
      (keepAfter m'.scopes.depth (execute depth code (m'.within [] (values ++ m.operands))) >>=
        execute (depth + 1) after) := by
  rw [Expr.codeOnto, hargs.execute, execute_load_call hname, hargs.operands]

/-- A call with fewer arguments than parameters.  The parameters take the values of the arguments
and then the operands that were there before.  Where those are too few, the call stops at the first
parameter without a value; else its body runs on what is left of them. -/
theorem execute_call_short {name : String} {arguments : List Expr} {params : List String}
    {body : Expr} (hargs : LeavesEach (depth + 2) m arguments values m')
    (hname : m'.scopes.find? name = some (.routine (params.map .bind ++ body.code)))
    (hshort : arguments.length < params.length) (after : List Instr) :
    (∀ h : arguments.length + m.operands.length < params.length,
      execute (depth + 1) (params.map .bind ++ body.code)
          (m'.within [] (values ++ m.operands)) =
        .error (.missingOperand (.bind params[arguments.length + m.operands.length]),
          m'.within (Frame.putAll [] params (values ++ m.operands)) []) ∧
      execute (depth + 2) ((Expr.call name arguments).codeOnto after) m =
        .error (.missingOperand (.bind params[arguments.length + m.operands.length]),
          { m' with operands := [] })) ∧
    (params.length ≤ arguments.length + m.operands.length →
      execute (depth + 2) ((Expr.call name arguments).codeOnto after) m =
        (keepAfter m'.scopes.depth (execute (depth + 1) body.code
          (m'.within (Frame.putAll [] params (values ++ m.operands))
            (m.operands.drop (params.length - arguments.length)))) >>=
          execute (depth + 2) after)) := by
  have hlength : (values ++ m.operands).length = arguments.length + m.operands.length := by
    rw [List.length_append, hargs.length]
  have hcall := execute_call hargs hname after
  refine ⟨fun h => ?_, fun h => ?_⟩
  · have hfew : (values ++ m.operands).length < params.length := by rwa [hlength]
    have hstop : execute (depth + 1) (params.map .bind ++ body.code)
        (m'.within [] (values ++ m.operands)) = _ := execute_params_short hfew body.code
    simp only [hlength] at hstop
    refine ⟨hstop, ?_⟩
    rw [hcall, hstop, keepAfter, keep_within]
    rfl
  · have hdrop : (values ++ m.operands).drop params.length =
        m.operands.drop (params.length - arguments.length) := by
      rw [List.drop_append, hargs.length, List.drop_eq_nil_of_le (by rw [hargs.length]; omega),
        List.nil_append]
    have henough : params.length ≤ (values ++ m.operands).length := by rwa [hlength]
    rw [hcall, execute_params henough, hdrop]

/-- `a + b`. -/
def sumBody : Expr := .binary (.reference "a") .add (.reference "b")

/-- A machine on which `f` is the closure `(a, b) => a + b`. -/
def withSum (operands : List Value) : Machine :=
  { Machine.new 0 with
    operands
    scopes := { globals := [("f", .routine (["a", "b"].map .bind ++ sumBody.code))] } }

theorem leavesEach_one (operands : List Value) :
    LeavesEach 2 (withSum operands) [.literal 1] [.number 1]
      ((withSum operands).push (.number 1)) :=
  .cons (.nil _) rfl rfl

theorem find?_withSum (operands : List Value) :
    ((withSum operands).push (.number 1)).scopes.find? "f" =
      some (.routine (["a", "b"].map .bind ++ sumBody.code)) := rfl

/-- Without operands before it, `f(1)` stops where `b` is to get a value. -/
theorem execute_call_short_alone : execute 2 (Expr.call "f" [.literal 1]).code (withSum []) =
    .error (.missingOperand (.bind "b"), withSum []) := by
  obtain ⟨hstops, -⟩ := execute_call_short (leavesEach_one []) (find?_withSum []) (by decide) []
  exact (hstops (by decide)).2

/-- It is not so that a call with too few arguments stops: after `5`, `f(1)` takes that for `b`. -/
theorem arguments_not_apart : ¬ ∀ (depth : Nat) (name : String) (arguments : List Expr)
    (params : List String) (body : Expr) (values : List Value) (m m' : Machine),
    LeavesEach (depth + 2) m arguments values m' →
    m'.scopes.find? name = some (.routine (params.map .bind ++ body.code)) →
    ∀ h : arguments.length < params.length, ∃ stopped,
      execute (depth + 2) (Expr.call name arguments).code m =
        .error (.missingOperand (.bind params[arguments.length]), stopped) := by
  intro h
  obtain ⟨stopped, hstops⟩ := h 0 "f" [.literal 1] ["a", "b"] sumBody [.number 1]
    (withSum [.number 5]) _ (leavesEach_one _) (find?_withSum _) (by decide)
  have hgoes : execute 2 (Expr.call "f" [.literal 1]).code (withSum [.number 5]) =
      .ok (withSum [.number (1 + 5)]) := rfl
  rw [hgoes] at hstops
  cases hstops

end Machine

end Calculator
