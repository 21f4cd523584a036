import Calculator.Limits
import Calculator.Machine.Scopes
import Calculator.Number.Generator

/-
  The stack machine.  It has a stack of operands, scopes, a generator of random numbers and a list
  of diagnostics.  A name without value and a call of a number are noted and do no harm; a fault
  ends the run and leaves the machine as it was then.  A run starts with an empty stack and no
  diagnostics, keeps the values of names, and closes the frames that it opened, however it ends.

  Code inside code runs through `Instr.step` one level deeper: `execute depth` runs code at most
  `depth` levels deep, and going deeper is a fault.
-/

namespace Calculator

/-- What a run notes without stopping. -/
inductive Diagnostic where
  /-- A name without value was used; it counts as zero. -/
  | undefined (name : String)
  /-- A number was called; nothing happens. -/
  | notCallable (x : Number)

/-- A diagnostic as text. -/
def Diagnostic.text : Diagnostic → List Char
  | undefined name => "undefined variable: ".toList ++ name.toList
  | notCallable x => "value is not callable: ".toList ++ Number.text x

/-- Why a run stops. -/
inductive RunFault where
  /-- An instruction takes more operands than there are. -/
  | missingOperand (i : Instr)
  /-- The global frame cannot be closed. -/
  | globalScope
  /-- Code runs too many levels deep. -/
  | tooDeep
  /-- An instruction that the machine does not know. -/
  | unknown (i : Instr)
  /-- A comparison that does not exist. -/
  | noComparison (place : Int)

/-- The state of the machine. -/
structure Machine where
  /-- The operands, the last one first. -/
  operands : List Value := []
  scopes : Scopes := {}
  generator : Generator
  /-- The diagnostics, the first one first. -/
  diagnostics : List Diagnostic := []

/-- The outcome of running code: the machine after it, or a fault and the machine then. -/
abbrev Outcome := Except (RunFault × Machine) Machine

/-- The fault of an instruction that lacks an operand; a comparison that does not exist shows
first. -/
def Instr.lacking : Instr → RunFault
  | compare place =>
    match Comparison.ofPlace? place with
    | some _ => .missingOperand (.compare place)
    | none => .noComparison place
  | i => .missingOperand i

namespace Machine

/-- A new machine. -/
def new (seed : Int) : Machine := { generator := .ofSeed seed }

/-- Puts a value on the stack. -/
def push (m : Machine) (v : Value) : Machine := { m with operands := v :: m.operands }

/-- Notes a diagnostic. -/
def note (m : Machine) (d : Diagnostic) : Machine :=
  { m with diagnostics := m.diagnostics ++ [d] }

/-- Takes a value from the stack for an instruction. -/
def pop (m : Machine) (i : Instr) : Except (RunFault × Machine) (Value × Machine) :=
  match m.operands with
  | v :: rest => .ok (v, { m with operands := rest })
  | [] => .error (i.lacking, m)

/-- Takes a value from the stack as a number. -/
def popNumber (m : Machine) (i : Instr) : Except (RunFault × Machine) (Number × Machine) := do
  let (v, m) ← m.pop i
  return (v.toNumber, m)

/-- Puts the value of a name on the stack. -/
def load (m : Machine) (name : String) : Machine :=
  match m.scopes.find? name with
  | some v => m.push v
  | none => (m.note (.undefined name)).push (.number 0)

/-- Closes frames until at most so many are open. -/
def keep (depth : Nat) (m : Machine) : Machine := { m with scopes := m.scopes.keep depth }

/-- Closes frames after a run, however it ended. -/
def keepAfter (depth : Nat) : Outcome → Outcome
  | .ok m => .ok (m.keep depth)
  | .error (fault, m) => .error (fault, m.keep depth)

/-- Runs a routine in a frame of its own. -/
def callRoutine (run : List Instr → Machine → Outcome) (body : List Instr) (m : Machine) : Outcome :=
  keepAfter m.scopes.depth (run body { m with scopes := m.scopes.enter })

end Machine

namespace Instr

/-- Executes one instruction, given how to run the code inside it. -/
def step (run : List Instr → Machine → Outcome) (i : Instr) (m : Machine) : Outcome :=
  match i with
  | push x => .ok (m.push (.number x))
  | pushRandom =>
    let (x, generator) := m.generator.next
    .ok ({ m with generator }.push (.number x))
  | load name => .ok (m.load name)
  | assign name => do
    let (v, m) ← m.pop i
    return { m with scopes := m.scopes.assign name v }
  | bind name => do
    let (v, m) ← m.pop i
    return { m with scopes := m.scopes.bind name v }
  | arithmetic op => do
    let (right, m) ← m.popNumber i
    let (left, m) ← m.popNumber i
    return m.push (.number (op.apply left right))
  | compare place => do
    let (right, m) ← m.popNumber i
    let (left, m) ← m.popNumber i
    match Comparison.ofPlace? place with
    | some c => return m.push (.number (c.apply left right))
    | none => throw (.noComparison place, m)
  | unary op => do
    let (x, m) ← m.popNumber i
    return m.push (.number (op.apply x))
  | pushRoutine body => .ok (m.push (.routine body))
  | call => do
    let (v, m) ← m.pop i
    match v with
    | .number x => return m.note (.notCallable x)
    | .routine body => m.callRoutine run body
  | skipUnless body => do
    let (x, m) ← m.popNumber i
    if x != 0 then run body m else return m
  | branch consequent alternate => do
    let (x, m) ← m.popNumber i
    if x != 0 then run consequent m else run alternate m
  | enter => .ok { m with scopes := m.scopes.enter }
  | leave =>
    match m.scopes.leave? with
    | some scopes => .ok { m with scopes }
    | none => .error (.globalScope, m)
  | unknown _ => .error (.unknown i, m)

end Instr

namespace Machine

/-- Executes instructions one after another, given how to run the code inside them. -/
def sequence (run : List Instr → Machine → Outcome) : List Instr → Machine → Outcome
  | [], m => .ok m
  | i :: code, m => do
    let m ← i.step run m
    sequence run code m

/-- Runs code at most so many levels deep. -/
def execute : Nat → List Instr → Machine → Outcome
  | 0 => fun _ m => .error (.tooDeep, m)
  | depth + 1 => sequence (execute depth)

/-- Runs a program on an empty stack, at most so many levels deep. -/
def runWithin (depth : Nat) (code : List Instr) (m : Machine) : Outcome :=
  keepAfter m.scopes.depth (execute depth code { m with operands := [], diagnostics := [] })

/-- Runs a program on an empty stack. -/
def run [Limits] (code : List Instr) (m : Machine) : Outcome := runWithin Limits.run code m

/-- Takes the last operand as the result, if there is one. -/
def popResult (m : Machine) : Option Number × Machine :=
  match m.operands with
  | v :: rest => (some v.toNumber, { m with operands := rest })
  | [] => (none, m)

end Machine

end Calculator
