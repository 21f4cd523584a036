import Calculator.Proofs.Machine.Frames
import Calculator.Proofs.Program.Semicolon

/-
  Names and frames of compiled programs.  Where the routines of a machine come from programs, a block
  and a call leak no names: whatever they run, and wherever they stop, the frames that were open
  before know the names that they knew (`names_kept`).  And whatever the body of a closure does, its
  parameters keep the values that they have outside (`parameter_kept`).
-/

namespace Calculator

namespace Instr

variable {body code after : List Instr}

theorem Pushes.of_append (h : Pushes body (code ++ after)) :
    Pushes body code ∨ Pushes body after := by
  induction code with
  | nil => exact .inr h
  | cons i code ih =>
    cases h with
    | here => exact .inl .here
    | later h => exact (ih h).imp_left .later
    | routine h => exact .inl (.routine h)
    | skipUnless h => exact .inl (.skipUnless h)
    | consequent h => exact .inl (.consequent h)
    | alternate h => exact .inl (.alternate h)

/-- A routine that structured code pushes is structured. -/
theorem Structured.of_pushes (h : Structured code) (hpushes : Pushes body code) :
    Structured body := by
  induction h with
  | nil => cases hpushes
  | simple h =>
    cases hpushes with
    | later hpushes => cases hpushes
    | here | routine | skipUnless | consequent | alternate => exact h.elim
  | append h hafter ih₁ ih₂ => exact hpushes.of_append.elim ih₁ ih₂
  | routine h ih =>
    cases hpushes with
    | here => exact h
    | later hpushes => cases hpushes
    | routine hpushes => exact ih hpushes
  | skipUnless h ih =>
    cases hpushes with
    | later hpushes => cases hpushes
    | skipUnless hpushes => exact ih hpushes
  | branch hconsequent halternate ih₁ ih₂ =>
    cases hpushes with
    | later hpushes => cases hpushes
    | consequent hpushes => exact ih₁ hpushes
    | alternate hpushes => exact ih₂ hpushes
  | block h ih =>
    cases hpushes with
    | later hpushes =>
      rcases hpushes.of_append with hcode | hleave
      · exact ih hcode
      · cases hleave with
        | later hnil => cases hnil

end Instr

theorem Value.Compiled.structured [Limits] {v : Value} (h : v.Compiled) : v.Structured := by
  cases v with
  | number x => trivial
  | routine body =>
    obtain ⟨source, code, hcode, hpushes⟩ := h
    obtain ⟨e, he, rfl⟩ := parseSource_of_compile hcode
    exact e.code_structured.of_pushes hpushes

namespace Machine

open Instr

variable {m : Machine}

theorem All.structured [Limits] (h : m.All Value.Compiled) : m.All Value.Structured :=
  fun v hv => (h v hv).structured

/-- A block of any statements, and a call, leak no names: at the end the frames are as many as before
and know the names that they knew, and so do those at the bottom where it stopped. -/
theorem names_kept [Limits] (hm : m.All Value.Compiled) (depth : Nat) {code : List Instr}
    (hcode : (∃ body, code = (Expr.block body).code) ∨ code = [.call]) :
    (∀ m', execute depth code m = .ok m' →
      m'.scopes.frames.map Frame.names = m.scopes.frames.map Frame.names) ∧
    ∀ fault m', execute depth code m = .error (fault, m') →
      m.scopes.frames.map Frame.names <:+ m'.scopes.frames.map Frame.names := by
  have hends : (execute depth code m).Ending
      (Scopes.Rewrites (fun _ => True) m.scopes.frames) := by
    rcases hcode with ⟨body, rfl⟩ | rfl
    · exact execute_block body hm.structured
    · exact (execute_calling hm.structured).ending
  refine ⟨fun m' h => ?_, fun fault m' h => ?_⟩
  · rw [h] at hends
    exact hends.2.names
  · rw [h] at hends
    obtain ⟨fs, hfs, hrewrites⟩ := hends
    rw [← hrewrites.names]
    exact hfs.map Frame.names

/-- A machine on which `f` is a closure of a program, and `x` is one. -/
def withClosure (operands : List Value) (generator : Generator) : Machine :=
  { resumed [("f", .routine [.pushRandom]), ("x", .number 1)] generator with operands }

theorem withClosure_compiled {operands : List Value} (h : ∀ v ∈ operands, v.Compiled)
    (generator : Generator) : (withClosure operands generator).All Value.Compiled := by
  rintro v (hmem | ⟨f, hf, name, hmem⟩)
  · exact h v hmem
  · obtain rfl := List.mem_singleton.1 hf
    rcases List.mem_cons.1 hmem with heq | hmem
    · obtain ⟨-, rfl⟩ := Prod.mk.inj heq
      exact ⟨_, _, Session.compileSource_closure, .here⟩
    · obtain ⟨-, rfl⟩ := Prod.mk.inj (List.mem_singleton.1 hmem)
      trivial

/-- `{let x = f(); let y = x}` gives `x` a value outside, and `y` one inside. -/
theorem names_kept_assigned : ∃ m', execute 2
      (Expr.block [.assign "x" (.call "f" []), .assign "y" (.reference "x")]).code
      (withClosure [] (.ofSeed 0)) = .ok m' ∧
    m'.scopes.frames.map Frame.names = [["f", "x"]] := by
  have hrun (g : Generator) : ∃ m', execute 2
      (Expr.block [.assign "x" (.call "f" []), .assign "y" (.reference "x")]).code
      (withClosure [] g) = .ok m' := ⟨_, rfl⟩
  obtain ⟨m', h⟩ := hrun (.ofSeed 0)
  have hkept := names_kept (withClosure_compiled (List.forall_mem_nil _) (.ofSeed 0)) 2
    (.inl ⟨[.assign "x" (.call "f" []), .assign "y" (.reference "x")], rfl⟩)
  exact ⟨m', h, hkept.1 m' h⟩

/-- A call of a closure, whatever its body is and however the call ends, changes nothing of the value
that a parameter of the closure has in the frames that were open before, nor whether it has one. -/
theorem parameter_kept [Limits] {params : List String} {body : Expr} {rest : List Value} {x : String}
    (hm : ({ m with operands := rest } : Machine).All Value.Compiled)
    (hcall : m.operands = .routine (params.map .bind ++ body.code) :: rest) (hx : x ∈ params)
    (depth : Nat) : (execute depth [.call] m).machine.scopes.frames.map (·.find? x) =
      m.scopes.frames.map (·.find? x) := by
  have hroutine : (Value.routine (params.map .bind ++ body.code)).Structured :=
    .append (.binds params) body.code_structured
  have hall : m.All Value.Structured := by
    have hpush := hm.structured.push hroutine
    rwa [push, ← hcall] at hpush
  have hclosing : (execute depth [.call] m).Closing
      (Scopes.Rewrites (· ∉ params) m.scopes.frames) :=
    execute_closure body.code_structured hall hcall
  exact hclosing.1.find? (not_not_intro hx)

/-- `(x) => let x = f()` is called without an argument for `x`, and with one. -/
theorem parameter_kept_assigned :
    let closure : Value := .routine (["x"].map .bind ++ (Expr.assign "x" (.call "f" [])).code)
    (execute 3 [.call] (withClosure [closure] (.ofSeed 0))).machine.scopes.frames.map
        (·.find? "x") = [some (.number 1)] ∧
      (execute 3 [.call] (withClosure [closure, .number 7] (.ofSeed 0))).machine.scopes.frames.map
        (·.find? "x") = [some (.number 1)] := by
  intro closure
  have hkept (operands : List Value) (h : ∀ v ∈ operands, v.Compiled) :
      (execute 3 [.call] (withClosure (closure :: operands) (.ofSeed 0))).machine.scopes.frames.map
        (·.find? "x") = [some (.number 1)] := by
    have hm : ({ withClosure (closure :: operands) (.ofSeed 0) with operands } : Machine).All
        Value.Compiled := withClosure_compiled h _
    have hcall : (withClosure (closure :: operands) (.ofSeed 0)).operands =
        .routine (["x"].map .bind ++ (Expr.assign "x" (.call "f" [])).code) :: operands := rfl
    exact parameter_kept hm hcall List.mem_cons_self 3
  have hargument : (Value.number 7).Compiled := trivial
  exact ⟨hkept [] (List.forall_mem_nil _), hkept [.number 7] (List.forall_mem_singleton.2 hargument)⟩

end Machine

end Calculator
