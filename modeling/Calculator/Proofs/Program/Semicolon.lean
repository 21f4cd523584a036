import Calculator.Proofs.Expr.Semicolon
import Calculator.Proofs.Machine.Above
import Calculator.Proofs.Machine.History
import Calculator.Proofs.Program.Session

/-
  Programs with a semicolon between them.  The code of such a program is the code of the one followed
  by the code of the other (`compileSource_semicolon`), so running it is running the one and then the
  other: the frames that the first one opens are closed when the second one starts, and what it leaves
  on the stack lies below, where the second one does not reach if it can do without
  (`run_semicolon`).
-/

namespace Calculator

open Calculator.Expr Instr

/-! ## The code of two programs -/

namespace Expr

variable {es : List Expr} {e : Expr}

/-- The code of a program is the code of its statements, one after another. -/
theorem code_ofStatements (h : ofStatements es = .ok e) : e.code = codeAllOnto es [] := by
  rcases ofStatements_eq_ok h with rfl | ⟨-, rfl⟩ <;> rfl

theorem ne_nil_of_ofStatements (h : ofStatements es = .ok e) : es ≠ [] := by
  rintro rfl
  cases h

theorem exists_ofStatements (h : es ≠ []) : ∃ e, ofStatements es = .ok e := by
  rcases es with _ | ⟨e₁, _ | ⟨e₂, es⟩⟩
  · exact absurd rfl h
  · exact ⟨_, rfl⟩
  · exact ⟨_, rfl⟩

end Expr

theorem tokenize_semicolon {a b : String} {first second : List Token}
    (hclosed : (Scan.ofCursor (.ofString a)).supplied = [])
    (hfirst : tokenize (.ofString a) = .ok first) (hsecond : tokenize (.ofString b) = .ok second) :
    first = (Scan.ofCursor (.ofString a)).written ∧
      ∃ tokens, tokenize (.ofString (a ++ ";" ++ b)) = .ok tokens ∧ tokens.map (·.lexeme) =
        first.map (·.lexeme) ++ .symbol .semicolon :: second.map (·.lexeme) := by
  obtain ⟨hfault, rfl⟩ := Scan.tokenize_eq_ok.1 hfirst
  obtain ⟨hfault', rfl⟩ := Scan.tokenize_eq_ok.1 hsecond
  have hwritten : (Scan.ofCursor (.ofString a)).all = (Scan.ofCursor (.ofString a)).written := by
    rw [Scan.all, hclosed, List.append_nil]
  have hcloses := Scan.supplied_lexemes hfault
  rw [hclosed, List.map_nil] at hcloses
  have hreads := (Scan.reads_iff.2 ⟨hfault, rfl⟩).semicolon (Scan.reads_iff.2 ⟨hfault', rfl⟩)
  have htext : (a ++ ";" ++ b).toList = a.toList ++ ';' :: b.toList := by
    rw [String.toList_append, String.toList_append, List.append_assoc]
    rfl
  rw [← htext] at hreads
  obtain ⟨tokens, htokens, hlexemes⟩ := Scan.tokenize_lexemes hreads
  refine ⟨hwritten, tokens, htokens, ?_⟩
  rw [hlexemes, Scan.closers_semicolon (List.map_eq_nil_iff.1 hcloses.symm), hwritten, Scan.all,
    List.map_append, Scan.supplied_lexemes hfault', List.append_assoc, List.cons_append]

/-- The code of two programs with a semicolon between them. -/
theorem compileSource_semicolon [Limits] {a b : String} {code code' : List Instr}
    (ha : compileSource a = .ok code) (hb : compileSource b = .ok code')
    (hclosed : (Scan.ofCursor (.ofString a)).supplied = [])
    (hlast : ((Scan.ofCursor (.ofString a)).written.map (·.lexeme)).getLast? ≠
      some (.symbol .semicolon)) : compileSource (a ++ ";" ++ b) = .ok (code ++ code') := by
  obtain ⟨e, he, rfl⟩ := parseSource_of_compile ha
  obtain ⟨e', he', rfl⟩ := parseSource_of_compile hb
  obtain ⟨first, hfirst, hparse⟩ := parseSource_eq_ok he
  obtain ⟨second, hsecond, hparse'⟩ := parseSource_eq_ok he'
  obtain ⟨es, hes, hprogram⟩ := bind_eq_ok.1 hparse
  obtain ⟨es', hes', hprogram'⟩ := bind_eq_ok.1 hparse'
  obtain ⟨rfl, tokens, htokens, hlexemes⟩ := tokenize_semicolon hclosed hfirst hsecond
  have hne : es ≠ [] := ne_nil_of_ofStatements hprogram
  have hboth : statementsWithin Limits.read tokens = .ok (es ++ es') :=
    statementsWithin_semicolon Limits.read_pos hes hes' hne hlast hlexemes
  obtain ⟨joint, hjoint⟩ := exists_ofStatements (List.append_ne_nil_of_left_ne_nil hne es')
  have hsource : parseSource (a ++ ";" ++ b) = .ok joint := by
    refine bind_eq_ok.2 ⟨tokens, mapError_eq_ok.2 htokens, mapError_eq_ok.2 ?_⟩
    exact bind_eq_ok.2 ⟨_, hboth, hjoint⟩
  rw [compileSource_of_parse hsource, code_ofStatements hjoint, code_ofStatements hprogram,
    code_ofStatements hprogram', codeAllOnto_concat, ← codeAllOnto_append]
  rfl

/-! ## Routines that come from programs -/

/-- Code pushes a routine, itself or in the code inside it. -/
inductive Instr.Pushes (body : List Instr) : List Instr → Prop
  | here {code : List Instr} : Pushes body (.pushRoutine body :: code)
  | later {i : Instr} {code : List Instr} (h : Pushes body code) : Pushes body (i :: code)
  | routine {inside code : List Instr} (h : Pushes body inside) :
      Pushes body (.pushRoutine inside :: code)
  | skipUnless {inside code : List Instr} (h : Pushes body inside) :
      Pushes body (.skipUnless inside :: code)
  | consequent {inside other code : List Instr} (h : Pushes body inside) :
      Pushes body (.branch inside other :: code)
  | alternate {other inside code : List Instr} (h : Pushes body inside) :
      Pushes body (.branch other inside :: code)

/-- A number, or a routine that the code of some source pushes. -/
def Value.Compiled [Limits] : Value → Prop
  | number _ => True
  | routine body => ∃ source code, compileSource source = .ok code ∧ Instr.Pushes body code

theorem Instr.Pushes.scoped {body code : List Instr} (h : Pushes body code) {n : Nat}
    (hcode : Closes code n) : (Value.routine body).Scoped := by
  induction h generalizing n with
  | here => exact hcode.1
  | later h ih =>
    obtain ⟨-, k, -, hrest⟩ := hcode
    exact ih hrest
  | routine h ih => exact ih hcode.1.2
  | skipUnless h ih => exact ih hcode.1
  | consequent h ih => exact ih hcode.1.1
  | alternate h ih => exact ih hcode.1.2

theorem Value.Compiled.scoped [Limits] {v : Value} (h : v.Compiled) : v.Scoped := by
  cases v with
  | number x => trivial
  | routine body =>
    obtain ⟨source, code, hcode, hpushes⟩ := h
    exact hpushes.scoped (Session.closes_of_compile hcode)

/-! ## Running two programs -/

namespace Machine

variable {code code' : List Instr} {m m₁ m₂ : Machine}

theorem run_eq [Limits] (code : List Instr) (m : Machine) :
    m.run code = keepAfter m.scopes.depth (execute Limits.run code m.cleared) := rfl

/-- A run closes no frames at its end when the code has closed them. -/
theorem run_eq_ok [Limits] (hcode : Closes code 0) (hm : m.cleared.All Value.Scoped) :
    m.run code = .ok m₁ ↔ execute Limits.run code m.cleared = .ok m₁ := by
  rw [run_eq]
  cases houtcome : execute Limits.run code m.cleared with
  | error stop => exact ⟨nofun, nofun⟩
  | ok m' =>
    have hdepth := execute_depth hcode hm houtcome
    change m'.scopes.inner.length = m.scopes.depth at hdepth
    have hkeep : m'.keep m.scopes.depth = m' := by
      rw [keep, Scopes.keep, hdepth, Nat.sub_self]
      rfl
    rw [keepAfter, hkeep]

/-- A machine is as a run finds it, above its operands and after its diagnostics. -/
theorem cleared_above_noted (m : Machine) :
    (m.cleared.above m.operands).noted m.diagnostics = m := by
  unfold noted
  rw [show (m.cleared.above m.operands).diagnostics = [] from rfl, List.append_nil]
  rfl

/-- Two codes that close their frames, run one after the other, are run as one. -/
theorem run_append_ok [Limits] (hcode : Closes code 0) (hcode' : Closes code' 0)
    (hm : m.cleared.All Value.Scoped) (h : m.run code = .ok m₁) (h' : m₁.run code' = .ok m₂) :
    m.run (code ++ code') = .ok ((m₂.above m₁.operands).noted m₁.diagnostics) := by
  have hends : (execute Limits.run code m.cleared).Ends m.scopes.depth :=
    execute_scoped hcode rfl hm
  have hfirst := (run_eq_ok hcode hm).1 h
  rw [hfirst] at hends
  have hsecond := (run_eq_ok hcode' hends.1.bare).1 h'
  have hframed := execute_noted (execute_above hsecond m₁.operands) m₁.diagnostics
  rw [cleared_above_noted] at hframed
  rw [run_eq_ok (hcode.append hcode') hm, execute_append, hfirst]
  exact hframed

/-- Where the first code stops, both do. -/
theorem run_append_error [Limits] {fault : RunFault} (h : m.run code = .error (fault, m₁)) :
    m.run (code ++ code') = .error (fault, m₁) := by
  rw [run_eq] at h ⊢
  rw [execute_append]
  cases houtcome : execute Limits.run code m.cleared with
  | ok m' =>
    rw [houtcome] at h
    cases h
  | error stop =>
    rw [houtcome] at h
    exact h

end Machine

/-- Two programs with a semicolon between them have the code of the one and then that of the other,
and running it on a machine whose stored routines come from programs is running the one and then the
other.  The values that the first one leaves lie below those of the second one. -/
theorem run_semicolon [Limits] {a b : String} {code code' : List Instr}
    (ha : compileSource a = .ok code) (hb : compileSource b = .ok code')
    (hclosed : (Scan.ofCursor (.ofString a)).supplied = [])
    (hlast : ((Scan.ofCursor (.ofString a)).written.map (·.lexeme)).getLast? ≠
      some (.symbol .semicolon)) :
    compileSource (a ++ ";" ++ b) = .ok (code ++ code') ∧
    ∀ m : Machine, (∀ v, m.scopes.Holds v → v.Compiled) →
      (∀ m₁ m₂, m.run code = .ok m₁ → m₁.run code' = .ok m₂ →
        m.run (code ++ code') = .ok { m₂ with
          operands := m₂.operands ++ m₁.operands
          diagnostics := m₁.diagnostics ++ m₂.diagnostics }) ∧
      ∀ fault m₁, m.run code = .error (fault, m₁) →
        m.run (code ++ code') = .error (fault, m₁) := by
  refine ⟨compileSource_semicolon ha hb hclosed hlast, fun m hm => ⟨fun m₁ m₂ h h' => ?_, ?_⟩⟩
  · have hscoped : m.cleared.All Value.Scoped := by
      rintro v (hmem | hheld)
      · cases hmem
      · exact (hm v hheld).scoped
    have hcode := Session.closes_of_compile ha
    have hcode' := Session.closes_of_compile hb
    exact Machine.run_append_ok hcode hcode' hscoped h h'
  · exact fun fault m₁ h => Machine.run_append_error h

set_option maxRecDepth 4000 in
/-- A closure is made in the one program, where a closure of that name is stored already, and called
in the other. -/
theorem run_semicolon_call : ∃ m₁ m₂ : Machine,
    (Machine.resumed [("f", .routine [.pushRandom])] (.ofSeed 0)).run
      [.pushRoutine [.pushRandom], .assign "f"] = .ok m₁ ∧
    m₁.run [.load "f", .call] = .ok m₂ ∧
    compileSource ("let f=()=>rand()" ++ ";" ++ "f()") =
      .ok [.pushRoutine [.pushRandom], .assign "f", .load "f", .call] ∧
    (Machine.resumed [("f", .routine [.pushRandom])] (.ofSeed 0)).run
      [.pushRoutine [.pushRandom], .assign "f", .load "f", .call] =
        .ok { m₂ with
          operands := m₂.operands ++ m₁.operands
          diagnostics := m₁.diagnostics ++ m₂.diagnostics } := by
  have hclosed : (Scan.ofCursor (.ofString "let f=()=>rand()")).supplied = [] := by
    cbv
  have hlast : ((Scan.ofCursor (.ofString "let f=()=>rand()")).written.map (·.lexeme)).getLast? =
      some (.symbol .closeParen) := by
    cbv
  have hstored : ∀ v, (Machine.resumed [("f", .routine [.pushRandom])] (.ofSeed 0)).scopes.Holds v →
      v.Compiled := by
    rintro v ⟨f, hf, name, hmem⟩
    obtain rfl := List.mem_singleton.1 hf
    obtain ⟨-, rfl⟩ := Prod.mk.inj (List.mem_singleton.1 hmem)
    exact ⟨_, _, Session.compileSource_closure, .here⟩
  have hmake (g : Generator) : (Machine.resumed [("f", .routine [.pushRandom])] g).run
      [.pushRoutine [.pushRandom], .assign "f"] =
        .ok (Machine.resumed [("f", .routine [.pushRandom])] g) := rfl
  have hcall (g : Generator) : (Machine.resumed [("f", .routine [.pushRandom])] g).run
      [.load "f", .call] = .ok { Machine.resumed [("f", .routine [.pushRandom])] g.next.2 with
        operands := [.number g.next.1] } := rfl
  obtain ⟨hcode, hrun⟩ := run_semicolon Session.compileSource_closure Session.compileSource_call
    hclosed (by rw [hlast]; simp)
  exact ⟨_, _, hmake _, hcall _, hcode, (hrun _ hstored).1 _ _ (hmake _) (hcall _)⟩

end Calculator
