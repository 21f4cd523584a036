import Calculator.Proofs.Machine.Arguments
import Calculator.Proofs.Machine.Depth
import Calculator.Proofs.Machine.Evaluation

/-
  Calls with an argument for each parameter.  The arguments are terms, so each leaves one value; they
  are evaluated from the last one to the first in the frames of the caller.  The parameters take the
  values in their own order, so that each gets that of its argument, and nothing is left above the
  operands that were there before (`arguments_passed`).
-/

namespace Calculator

/-! ## Frames of parameters -/

namespace Frame

variable {f : Frame} {params : List String} {values : List Value}

/-- A name that a frame does not know comes last in it. -/
theorem put_of_notMem {name : String} (h : name ∉ f.names) (v : Value) :
    f.put name v = f ++ [(name, v)] := by
  induction f with
  | nil => rfl
  | cons entry others ih =>
    obtain ⟨known, old⟩ := entry
    obtain ⟨hne, hothers⟩ := not_or.1 (List.mem_cons.not.1 h)
    rw [put, if_neg (Ne.symm hne), ih hothers]
    rfl

/-- Names that differ, and that a frame does not know, take a value each. -/
theorem putAll_of_nodup (h : (f.names ++ params).Nodup) :
    f.putAll params values = f ++ params.zip values := by
  induction params generalizing f values with
  | nil => exact (List.append_nil f).symm
  | cons name params ih =>
    cases values with
    | nil => rw [putAll_nil, List.zip_nil_right, List.append_nil]
    | cons v values =>
      have hname : name ∉ f.names := fun hmem =>
        List.disjoint_of_nodup_append h hmem List.mem_cons_self
      have hput : (f.put name v).names = f.names ++ [name] := by
        rw [put_of_notMem hname, names, List.map_append]
        rfl
      have hothers : (f.put name v).putAll params values = f.put name v ++ params.zip values :=
        ih (by rwa [hput, List.append_assoc])
      rw [List.zip_cons_cons, List.append_cons, ← put_of_notMem hname]
      exact hothers

/-- Each parameter has the value of its argument. -/
theorem find?_zip (h : params.Nodup) (hlength : params.length = values.length) {i : Nat}
    (hi : i < params.length) : find? (params.zip values) params[i] = values[i]? := by
  induction params generalizing values i with
  | nil => cases hi
  | cons name params ih =>
    obtain ⟨v, values, rfl⟩ : ∃ v vs, values = v :: vs :=
      List.exists_cons_of_length_pos (hlength ▸ Nat.succ_pos _)
    obtain ⟨hname, hparams⟩ := List.nodup_cons.1 h
    cases i with
    | zero => exact if_pos rfl
    | succ i =>
      have hi' : i < params.length := Nat.lt_of_succ_lt_succ hi
      have hne : name ≠ params[i] := fun heq => hname (heq ▸ List.getElem_mem hi')
      rw [List.zip_cons_cons, find?, List.getElem_cons_succ, if_neg hne, List.getElem?_cons_succ]
      exact ih hparams (Nat.succ.inj hlength) hi'

end Frame

/-! ## Arguments -/

/-- The values of some terms, evaluated from the last one to the first, and what is left of the world
after them. -/
def Term.evalBack : List Term → World → List Value × World
  | [], w => ([], w)
  | t :: ts, w =>
    let (vs, w) := Term.evalBack ts w
    let (v, w) := t.eval w
    (v :: vs, w)

/-- How many levels deep the code of some terms runs. -/
def Term.levelsAll : List Term → Nat
  | [] => 1
  | t :: ts => max t.levels (Term.levelsAll ts)

theorem Term.levelsAll_pos (ts : List Term) : 0 < Term.levelsAll ts := by
  cases ts with
  | nil => exact Nat.one_pos
  | cons t ts => exact lt_max_of_lt_left t.levels_pos

theorem Term.length_evalBack (ts : List Term) (w : World) :
    (Term.evalBack ts w).1.length = ts.length := by
  induction ts with
  | nil => rfl
  | cons t ts ih => exact congrArg (· + 1) ih

namespace Machine

open Instr

variable {name : String} {params : List String} {body : Expr} {arguments : List Term}
  {m m' : Machine}

/-- Terms leave a value each. -/
theorem leavesEach_terms {depth : Nat} {ts : List Term} (h : Term.levelsAll ts ≤ depth)
    (m : Machine) : ∃ m', m'.world = (Term.evalBack ts m.world).2 ∧
      LeavesEach depth m (ts.map Term.toExpr) (Term.evalBack ts m.world).1 m' := by
  induction ts with
  | nil => exact ⟨m, rfl, .nil m⟩
  | cons t ts ih =>
    obtain ⟨ht, hts⟩ := Nat.max_le.1 h
    obtain ⟨m₁, hworld₁, hleaves⟩ := ih hts
    obtain ⟨m₂, hrun, hoperands₂, hworld₂⟩ := t.leaves ht m₁
    rw [hworld₁] at hoperands₂ hworld₂
    exact ⟨m₂, hworld₂, .cons hleaves hrun hoperands₂⟩

/-- Where the code of terms may not run so deep, it does the same or stops because of that. -/
theorem execute_terms (ts : List Term) (m : Machine) : ∃ m',
    m'.world = (Term.evalBack ts m.world).2 ∧
    m'.operands = (Term.evalBack ts m.world).1 ++ m.operands ∧
    (∀ depth, Term.levelsAll ts ≤ depth →
      execute depth (Expr.codeBackOnto (ts.map Term.toExpr) []) m = .ok m') ∧
    ∀ depth, (execute depth (Expr.codeBackOnto (ts.map Term.toExpr) []) m).Refines (.ok m') := by
  obtain ⟨m', hworld, hleaves⟩ := leavesEach_terms (Nat.le_refl (Term.levelsAll ts)) m
  have hrun : execute (Term.levelsAll ts) (Expr.codeBackOnto (ts.map Term.toExpr) []) m =
      .ok m' := by
    obtain ⟨depth, hdepth⟩ := Nat.exists_eq_succ_of_ne_zero (Term.levelsAll_pos ts).ne'
    rw [hleaves.execute, hdepth]
    rfl
  have hruns (depth : Nat) (h : Term.levelsAll ts ≤ depth) :
      execute depth (Expr.codeBackOnto (ts.map Term.toExpr) []) m = .ok m' := by
    rcases execute_refines h (Expr.codeBackOnto (ts.map Term.toExpr) []) m with
      ⟨stopped, hdeep⟩ | hsame
    · cases hrun.symm.trans hdeep
    · exact hsame.symm.trans hrun
  refine ⟨m', hworld, hleaves.operands, hruns, fun depth => ?_⟩
  rw [← hruns (max depth (Term.levelsAll ts)) (Nat.le_max_right _ _)]
  exact execute_refines (Nat.le_max_left _ _) _ m

/-- Parameters take as many values as there are, each its own, in a frame of their own. -/
theorem execute_binds {values : List Value} (hparams : params.Nodup)
    (hlength : params.length = values.length) (depth : Nat) (m : Machine)
    (operands : List Value) (code : List Instr) :
    execute (depth + 1) (params.map .bind ++ code) (m.within [] (values ++ operands)) =
      execute (depth + 1) code (m.within (params.zip values) operands) := by
  have henough : params.length ≤ (values ++ operands).length := by
    rw [List.length_append]
    omega
  have hnames : (Frame.names [] ++ params).Nodup := hparams
  have hzip : params.zip (values ++ operands) = params.zip values := by
    rw [← List.append_nil params, List.zip_append hlength, List.append_nil, List.zip_nil_left,
      List.append_nil]
  rw [execute_params henough, Frame.putAll_of_nodup hnames, hzip, hlength, List.drop_left]
  rfl

/-- A call of a closure with a value for each of its parameters: the body starts in their frame. -/
theorem execute_call_values {values operands : List Value} (hparams : params.Nodup)
    (hlength : params.length = values.length) (hoperands : m.operands = values ++ operands)
    (hname : m.scopes.find? name = some (.routine (params.map .bind ++ body.code)))
    (depth : Nat) (after : List Instr) :
    execute (depth + 2) (.load name :: .call :: after) m =
      (keepAfter m.scopes.depth (execute (depth + 1) body.code
        (m.within (params.zip values) operands)) >>= execute (depth + 2) after) := by
  rw [execute_load_call hname, hoperands, execute_binds hparams hlength]

/-- What a call of a closure with a term for each parameter comes to, where the arguments have such
values and make `m'` of the machine `m`, the values apart. -/
structure Passes (name : String) (params : List String) (body : Expr) (arguments : List Term)
    (m : Machine) (values : List Value) (m' : Machine) : Prop where
  /-- The arguments are evaluated from the last one to the first, in the frames of the caller. -/
  evaluated : Term.evalBack arguments m.world = (values, m'.world)
  /-- Besides their values nothing is left on the stack. -/
  operands : m'.operands = m.operands
  /-- The frame of the call knows the parameters and nothing else. -/
  names : Frame.names (params.zip values) = params
  /-- In it each parameter has the value of its own argument. -/
  finds : ∀ i (h : i < params.length), Frame.find? (params.zip values) params[i] = values[i]?
  /-- The arguments leave their values above the operands. -/
  evaluates : ∀ depth, Term.levelsAll arguments ≤ depth →
    execute depth (Expr.codeBackOnto (arguments.map Term.toExpr) []) m =
      .ok { m' with operands := values ++ m.operands }
  /-- In the new frame the parameters take these values and leave the operands. -/
  binds : ∀ depth, execute (depth + 1) (params.map .bind)
    (m'.within [] (values ++ m.operands)) = .ok (m'.within (params.zip values) m.operands)
  /-- So the body starts there, and the frame is closed after it. -/
  runs : ∀ depth after, Term.levelsAll arguments ≤ depth + 2 →
    execute (depth + 2) ((Expr.call name (arguments.map Term.toExpr)).codeOnto after) m =
      (keepAfter m'.scopes.depth
        (execute (depth + 1) body.code (m'.within (params.zip values) m.operands)) >>=
          execute (depth + 2) after)
  /-- Where the arguments or the routine may not run so deep, the call stops because of that. -/
  refines : ∀ depth after,
    (execute (depth + 1) ((Expr.call name (arguments.map Term.toExpr)).codeOnto after) m).Refines
      (keepAfter m'.scopes.depth
        (execute depth body.code (m'.within (params.zip values) m.operands)) >>=
          execute (depth + 1) after)

/-- Each parameter receives its own argument where a closure, whose parameters differ, is called with
a term for each of them. -/
theorem arguments_passed (hparams : params.Nodup) (hlength : params.length = arguments.length)
    (hname : ((Term.evalBack arguments m.world).2.lookup name).1 =
      .routine (params.map .bind ++ body.code)) :
    ∃ values m', Passes name params body arguments m values m' := by
  obtain ⟨m₁, hworld, hoperands, hruns, hrefines⟩ := execute_terms arguments m
  have hvalues : params.length = (Term.evalBack arguments m.world).1.length :=
    hlength.trans (Term.length_evalBack arguments m.world).symm
  have hfind : m₁.scopes.find? name = some (.routine (params.map .bind ++ body.code)) :=
    find?_of_lookup (hworld ▸ hname)
  generalize hevaluated : Term.evalBack arguments m.world = evaluated at hworld hoperands hvalues
  obtain ⟨values, w⟩ := evaluated
  have hm₁ : { m₁ with operands := values ++ m.operands } = m₁ := by
    rw [← hoperands]
  have hcall := execute_call_values hparams hvalues hoperands hfind
  have hcode (after : List Instr) : (Expr.call name (arguments.map Term.toExpr)).codeOnto after =
      Expr.codeBackOnto (arguments.map Term.toExpr) [] ++ .load name :: .call :: after := by
    rw [Expr.codeOnto, ← Expr.codeBackOnto_append, List.nil_append]
  refine ⟨values, { m₁ with operands := m.operands }, ?_, rfl, ?_, ?_, ?_, ?_, ?_, ?_⟩
  · exact hevaluated.trans (congrArg (values, ·) hworld.symm)
  · exact List.map_fst_zip hvalues.le
  · exact fun i hi => Frame.find?_zip hparams hvalues hi
  · exact fun depth h => (hruns depth h).trans (congrArg _ hm₁.symm)
  · intro depth
    have hbinds := execute_binds hparams hvalues depth m₁ m.operands []
    rwa [List.append_nil] at hbinds
  · intro depth after h
    rw [hcode, execute_append, hruns _ h]
    exact hcall depth after
  · intro depth after
    rw [hcode, execute_append]
    refine ((hrefines (depth + 1)).bind fun _ => .refl _).trans ?_
    cases depth with
    | zero =>
      -- Not even the routine may run.
      refine .inl ⟨(m₁.within [] m₁.operands).keep m₁.scopes.depth, ?_⟩
      change execute 1 (.load name :: .call :: after) m₁ = _
      rw [execute_load_call hfind]
      rfl
    | succ depth => exact .inr (hcall depth after)

/-- `a - b`. -/
def differenceBody : Expr := .binary (.reference "a") .sub (.reference "b")

/-- `{ let x = rand(); x }` and `rand()`. -/
def draws : List Term := [.block [.assign "x" .random] (.reference "x"), .random]

/-- A machine on which `f` is the closure `(a, b) => a - b`, with `9` on the stack. -/
def withDifference (generator : Generator) : Machine where
  operands := [.number 9]
  scopes := { globals := [("f", .routine (["a", "b"].map .bind ++ differenceBody.code))] }
  generator

/-- Of two random arguments the last one is drawn first, and each parameter has that of its own
argument all the same. -/
theorem arguments_passed_draws : ∃ m',
    Passes "f" ["a", "b"] differenceBody draws (withDifference (.ofSeed 0))
      [.number (Generator.ofSeed 0).next.2.next.1, .number (Generator.ofSeed 0).next.1] m' := by
  generalize Generator.ofSeed 0 = g
  have hparams : ["a", "b"].Nodup := by decide
  have hname : ((Term.evalBack draws (withDifference g).world).2.lookup "f").1 =
      .routine (["a", "b"].map .bind ++ differenceBody.code) := rfl
  obtain ⟨values, m', h⟩ := arguments_passed hparams rfl hname
  have hvalues : [.number g.next.2.next.1, .number g.next.1] = values :=
    congrArg Prod.fst h.evaluated
  exact ⟨m', hvalues ▸ h⟩

end Machine

end Calculator
