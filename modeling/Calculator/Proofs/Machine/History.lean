import Calculator.Proofs.Machine.Scoped

/-
  Histories of runs.  Code of any kind, wherever it stops, leaves the global frame at the bottom and
  only gives names values in it (`Visits.grows`); so whatever was run on a machine before, all other
  frames are closed, no global name is lost, and the next run does what it does on a new machine with
  the same global frame and generator (`afterRuns_survives`).  Nothing is asked of the code: it may
  close frames that it did not open, a routine those of its callers.
-/

namespace Calculator

/-! ## Frames that grow -/

namespace Frame

variable {f g h : Frame} {name : String} {v : Value}

/-- A frame as it is after names got values in it, one after another. -/
inductive Grows (f : Frame) : Frame → Prop
  | refl : Grows f f
  | put {g : Frame} (h : Grows f g) (name : String) (v : Value) : Grows f (g.put name v)

theorem Grows.trans (hfg : f.Grows g) (hgh : g.Grows h) : f.Grows h := by
  induction hgh with
  | refl => exact hfg
  | put _ name v ih => exact ih.put name v

theorem names_put (f : Frame) (name : String) (v : Value) :
    (f.put name v).names = if name ∈ f.names then f.names else f.names ++ [name] := by
  induction f with
  | nil => rfl
  | cons entry others ih =>
    obtain ⟨known, old⟩ := entry
    unfold put
    by_cases heq : known = name
    · subst heq
      simp [names]
    · have hne : ¬ name = known := fun h => heq h.symm
      have hcons (v : Value) (f : Frame) : names ((known, v) :: f) = known :: names f := rfl
      rw [if_neg heq, hcons, hcons, ih]
      by_cases hmem : name ∈ names others <;> simp [hmem, hne]

/-- A name that a frame knows stays where it is. -/
theorem Grows.names (h : f.Grows g) : f.names <+: g.names := by
  induction h with
  | refl => exact List.prefix_rfl
  | @put g _ name v ih =>
    rw [names_put]
    split
    · exact ih
    · exact ih.trans (List.prefix_append _ _)

end Frame

/-! ## The global frame while code runs -/

namespace Scopes

theorem bind_grows (s : Scopes) (name : String) (v : Value) :
    s.globals.Grows (s.bind name v).globals := by
  unfold bind
  split
  · exact .put .refl name v
  · exact .refl

theorem assign_grows (s : Scopes) (name : String) (v : Value) :
    s.globals.Grows (s.assign name v).globals := by
  unfold assign
  split
  · exact .refl
  split
  · exact .put .refl name v
  · exact s.bind_grows name v

theorem leave?_globals {s s' : Scopes} (h : s.leave? = some s') : s'.globals = s.globals := by
  unfold leave? at h
  split at h <;> cases h
  rfl

end Scopes

namespace Instr

variable {i : Instr} {m m' m₀ : Machine}

theorem Does.grows (h : Does i m m') : m.scopes.globals.Grows m'.scopes.globals := by
  cases h with
  | load name =>
    unfold Machine.load
    split <;> exact .refl
  | assign h => exact m.scopes.assign_grows _ _
  | bind h => exact m.scopes.bind_grows _ _
  | leave h =>
    dsimp only
    rw [Scopes.leave?_globals h]
    exact .refl
  | _ => exact .refl

theorem Runs.globals {body : List Instr} (h : Runs i m body m₀) :
    m₀.scopes.globals = m.scopes.globals := by
  cases h <;> rfl

theorem Stops.globals {fault : RunFault} (h : Stops i m fault m') :
    m'.scopes.globals = m.scopes.globals := by
  cases h <;> rfl

theorem closing_globals (i : Instr) (m m' : Machine) :
    (i.closing m m').scopes.globals = m'.scopes.globals := by
  cases i <;> rfl

end Instr

/-- The machine at the end of a run, or where it stopped. -/
def Outcome.machine : Outcome → Machine
  | .ok m => m
  | .error (_, m) => m

namespace Machine

open Instr

variable {depth : Nat} {code : List Instr} {m s : Machine}

/-- One instruction, given that the code inside keeps the global frame. -/
theorem step_grows {run : List Instr → Machine → Outcome}
    (hrun : ∀ body (m : Machine), m.scopes.globals.Grows (run body m).machine.scopes.globals)
    (i : Instr) (m : Machine) : m.scopes.globals.Grows (i.step run m).machine.scopes.globals := by
  rcases step_cases i m with ⟨m', hdoes⟩ | ⟨body, m₀, hruns⟩ | ⟨fault, m', hstops⟩
  · rw [hdoes.step]
    exact hdoes.grows
  · have hinside := hrun body m₀
    rw [hruns.globals] at hinside
    rw [hruns.step]
    cases houtcome : run body m₀ with
    | ok m' =>
      rw [houtcome] at hinside
      exact (closing_globals i m m').symm ▸ hinside
    | error stop =>
      rw [houtcome] at hinside
      exact (closing_globals i m stop.2).symm ▸ hinside
  · rw [hstops.step]
    exact hstops.globals.symm ▸ .refl

theorem execute_grows (depth : Nat) (code : List Instr) (m : Machine) :
    m.scopes.globals.Grows (execute depth code m).machine.scopes.globals := by
  induction depth generalizing code m with
  | zero => exact .refl
  | succ depth ih =>
    induction code generalizing m with
    | nil => exact .refl
    | cons i code ihCode =>
      have hstep := step_grows ih i m
      rw [execute_cons]
      cases houtcome : i.step (execute depth) m with
      | ok m' =>
        rw [houtcome] at hstep
        exact hstep.trans (ihCode m')
      | error stop =>
        rw [houtcome] at hstep
        exact hstep

/-- Wherever code is stopped, the names of the global frame have got values and nothing else has
happened to it. -/
theorem Visits.grows (h : Visits depth code m s) : m.scopes.globals.Grows s.scopes.globals := by
  induction h with
  | start => exact .refl
  | @next depth i code m m' s hstep h ih =>
    have hfirst := step_grows (execute_grows depth) i m
    rw [hstep] at hfirst
    exact hfirst.trans ih
  | inside hruns h ih =>
    rw [hruns.globals] at ih
    exact ih
  | @stop depth i code m s fault hstep =>
    have hfirst := step_grows (execute_grows depth) i m
    rw [hstep] at hfirst
    exact hfirst

/-! ## One run after another -/

/-- A machine as a run finds it: no operands and no diagnostics. -/
def cleared (m : Machine) : Machine := { m with operands := [], diagnostics := [] }

/-- A new machine with a global frame and a generator given. -/
def resumed (globals : Frame) (generator : Generator) : Machine :=
  { scopes := { globals }, generator }

/-- The machine after some runs of any code, each at most so many levels deep. -/
def afterRuns (m : Machine) (history : List (Nat × List Instr)) : Machine :=
  history.foldl (fun m (depth, code) => (runWithin depth code m).machine) m

theorem runWithin_machine (depth : Nat) (code : List Instr) (m : Machine) :
    (runWithin depth code m).machine =
      (execute depth code m.cleared).machine.keep m.scopes.depth := by
  unfold runWithin
  change (keepAfter _ (execute depth code m.cleared)).machine = _
  cases execute depth code m.cleared <;> rfl

theorem runWithin_grows (depth : Nat) (code : List Instr) (m : Machine) :
    m.scopes.globals.Grows (runWithin depth code m).machine.scopes.globals := by
  rw [runWithin_machine]
  exact execute_grows depth code m.cleared

/-- A run that starts with the global frame alone ends so. -/
theorem runWithin_inner (h : m.scopes.inner = []) (depth : Nat) (code : List Instr) :
    (runWithin depth code m).machine.scopes.inner = [] := by
  have hzero : m.scopes.depth = 0 := congrArg List.length h
  rw [runWithin_machine, hzero]
  exact List.drop_length

theorem afterRuns_grows (m : Machine) (history : List (Nat × List Instr)) :
    m.scopes.globals.Grows (m.afterRuns history).scopes.globals := by
  induction history generalizing m with
  | nil => exact .refl
  | cons run history ih => exact (runWithin_grows run.1 run.2 m).trans (ih _)

theorem afterRuns_inner (h : m.scopes.inner = []) (history : List (Nat × List Instr)) :
    (m.afterRuns history).scopes.inner = [] := by
  induction history generalizing m with
  | nil => exact h
  | cons run history ih => exact ih (runWithin_inner h run.1 run.2)

/-- Of a machine with the global frame alone, a run sees that frame and the generator only. -/
theorem runWithin_resumed (h : m.scopes.inner = []) (depth : Nat) (code : List Instr) :
    runWithin depth code m = runWithin depth code (resumed m.scopes.globals m.generator) := by
  obtain ⟨operands, ⟨inner, globals⟩, generator, diagnostics⟩ := m
  cases h
  rfl

/-- After any runs on a new machine, and any later ones, however they ended, the global frame is the
only one.  The later runs have given names values in it and done nothing else to it, so it knows
every name that it knew; that is so at any point of the next run too.  And the next run, of any code,
does what it does on a new machine with this global frame and this generator. -/
theorem afterRuns_survives (seed : Int) (history later : List (Nat × List Instr)) :
    let m := (Machine.new seed).afterRuns history
    let m' := m.afterRuns later
    m'.scopes.frames = [m'.scopes.globals] ∧
      m.scopes.globals.Grows m'.scopes.globals ∧
      m.scopes.globals.names <+: m'.scopes.globals.names ∧
      ∀ depth code,
        (∀ s, Visits depth code m'.cleared s → m'.scopes.globals.Grows s.scopes.globals) ∧
        runWithin depth code m' =
          runWithin depth code (resumed m'.scopes.globals m'.generator) := by
  intro m m'
  have hinner : m'.scopes.inner = [] := afterRuns_inner (afterRuns_inner rfl history) later
  have hgrows : m.scopes.globals.Grows m'.scopes.globals := afterRuns_grows m later
  refine ⟨?_, hgrows, hgrows.names, fun depth code => ⟨fun s hs => hs.grows, ?_⟩⟩
  · unfold Scopes.frames
    rw [hinner, List.nil_append]
  · exact runWithin_resumed hinner depth code

/-- The routine closes the frame of its caller, so that its caller cannot close it and the run fails;
so does the next one, at an unknown instruction. -/
example : ((Machine.new 0).afterRuns
    [(2, [.push 1, .bind "x", .enter, .pushRoutine [.leave, .leave], .call, .leave]),
      (1, [.push 2, .assign "y", .unknown "HALT"])]).scopes.frames =
    [[("x", .number 1), ("y", .number 2)]] := rfl

end Machine

end Calculator
