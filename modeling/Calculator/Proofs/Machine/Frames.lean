import Calculator.Proofs.Code.Structured
import Calculator.Proofs.Machine.History
import Calculator.Proofs.Machine.World

/-
  What code does to the frames that were open before it.  Structured code opens frames above them and
  closes those again.  A name that some frame knows gets its value in the innermost frame that does,
  and any other name in the innermost frame of all; so of the frames below the innermost one, code
  changes values only, and only those of names that the innermost one does not know (`Fills.tail`).
  A block and a call have an innermost frame of their own, and that of a call knows the parameters
  (`execute_block`, `execute_closure`).
-/

namespace Calculator

namespace Frame

variable {f : Frame} {name other : String} {v : Value}

theorem knows_iff : f.knows name = true ↔ name ∈ f.names := by
  simp [knows, names]

theorem find?_put_of_ne (h : other ≠ name) : (f.put name v).find? other = f.find? other := by
  induction f with
  | nil => exact if_neg h.symm
  | cons entry others ih =>
    obtain ⟨known, old⟩ := entry
    unfold put
    split
    · next heq =>
      subst heq
      rw [find?, find?, if_neg h.symm, if_neg h.symm]
    · rw [find?, find?, ih]

theorem mem_names_put : other ∈ (f.put name v).names ↔ other = name ∨ other ∈ f.names := by
  rw [names_put]
  split
  · next hmem => exact ⟨.inr, fun h => h.elim (fun heq => heq ▸ hmem) id⟩
  · rw [List.mem_append, List.mem_singleton, or_comm]

theorem Grows.mem {g : Frame} (h : f.Grows g) (hname : name ∈ f.names) : name ∈ g.names :=
  h.names.subset hname

end Frame

namespace Scopes

/-! ## Frames while names get values -/

/-- Frames after names that some of them know have got values there, each in the innermost frame
that knows it; all of these names satisfy something. -/
inductive Rewrites (p : String → Prop) (fs : List Frame) : List Frame → Prop where
  | refl : Rewrites p fs fs
  | give {gs hs : List Frame} {name : String} {v : Value} (h : Rewrites p fs gs) (hname : p name)
      (hgive : replace? name v gs = some hs) : Rewrites p fs hs

/-- Frames after names have got values, each in the innermost frame that knows it or in the innermost
one of all. -/
inductive Fills (fs : List Frame) : List Frame → Prop where
  | refl : Fills fs fs
  | give {gs hs : List Frame} {name : String} {v : Value} (h : Fills fs gs)
      (hgive : replace? name v gs = some hs) : Fills fs hs
  | put {g : Frame} {gs : List Frame} (h : Fills fs (g :: gs)) (name : String) (v : Value) :
      Fills fs (g.put name v :: gs)

variable {p : String → Prop} {f : Frame} {fs gs hs : List Frame} {name : String} {v : Value}

/-- What giving a name a value does not change of the frame that knows it, it changes of none. -/
theorem map_replace? {α : Type} {view : Frame → α}
    (hview : ∀ f : Frame, f.knows name = true → view (f.put name v) = view f)
    (h : replace? name v fs = some gs) : gs.map view = fs.map view := by
  induction fs generalizing gs with
  | nil => cases h
  | cons f fs ih =>
    unfold replace? at h
    split at h
    · next hknows =>
      cases h
      rw [List.map_cons, List.map_cons, hview f hknows]
    · obtain ⟨hs, hgive, rfl⟩ := Option.map_eq_some_iff.1 h
      rw [List.map_cons, List.map_cons, ih hgive]

theorem Rewrites.names (h : Rewrites p fs gs) : gs.map Frame.names = fs.map Frame.names := by
  induction h with
  | refl => rfl
  | give h hname hgive ih =>
    rw [← ih]
    refine map_replace? (fun f hknows => ?_) hgive
    rw [Frame.names_put, if_pos (Frame.knows_iff.1 hknows)]

theorem Rewrites.length (h : Rewrites p fs gs) : gs.length = fs.length := by
  simpa using congrArg List.length h.names

/-- A name that gets no value has the values that it had. -/
theorem Rewrites.find? {x : String} (hx : ¬ p x) (h : Rewrites p fs gs) :
    gs.map (·.find? x) = fs.map (·.find? x) := by
  induction h with
  | refl => rfl
  | @give gs hs name v h hname hgive ih =>
    have hne : x ≠ name := fun heq => hx (heq ▸ hname)
    rw [← ih]
    exact map_replace? (fun f _ => Frame.find?_put_of_ne hne) hgive

theorem Rewrites.mono {q : String → Prop} (h : Rewrites p fs gs) (hpq : ∀ name, p name → q name) :
    Rewrites q fs gs := by
  induction h with
  | refl => exact .refl
  | give h hname hgive ih => exact .give ih (hpq _ hname) hgive

theorem Rewrites.fills (h : Rewrites p fs gs) : Fills fs gs := by
  induction h with
  | refl => exact .refl
  | give h hname hgive ih => exact .give ih hgive

theorem Fills.trans (h : Fills fs gs) (h' : Fills gs hs) : Fills fs hs := by
  induction h' with
  | refl => exact h
  | give h' hgive ih => exact .give ih hgive
  | put h' name v ih => exact .put ih name v

/-- Frames as they are below an innermost one that is not closed. -/
def Below (p : String → Prop) (fs gs : List Frame) : Prop :=
  ∃ g hs, gs = g :: hs ∧ Rewrites p fs hs

/-- Below the innermost frame only names get values that it does not know, and only where they are
known. -/
theorem Fills.tail (h : Fills (f :: fs) gs) : Below (· ∉ f.names) fs gs := by
  -- The innermost frame knows all along what it knows first.
  obtain ⟨g, hs, heq, -, hrewrites⟩ :
      ∃ g hs, gs = g :: hs ∧ f.Grows g ∧ Rewrites (· ∉ f.names) fs hs := by
    induction h with
    | refl => exact ⟨f, fs, rfl, .refl, .refl⟩
    | @give gs hs name v h hgive ih =>
      obtain ⟨g, gs, rfl, hgrows, hrewrites⟩ := ih
      unfold replace? at hgive
      split at hgive
      · cases hgive
        exact ⟨g.put name v, gs, rfl, hgrows.put name v, hrewrites⟩
      · next hknows =>
        have hname : name ∉ f.names := fun hmem => hknows (Frame.knows_iff.2 (hgrows.mem hmem))
        obtain ⟨hs, hother, rfl⟩ := Option.map_eq_some_iff.1 hgive
        exact ⟨g, hs, rfl, hgrows, .give hrewrites hname hother⟩
    | @put g gs h name v ih =>
      obtain ⟨_, _, heq, hgrows, hrewrites⟩ := ih
      cases heq
      exact ⟨g.put name v, gs, rfl, hgrows.put name v, hrewrites⟩
  exact ⟨g, hs, heq, hrewrites⟩

/-! ## Frames of a machine -/

theorem frames_ne_nil (s : Scopes) : s.frames ≠ [] :=
  List.append_ne_nil_of_right_ne_nil _ (List.cons_ne_nil _ _)

theorem fills_bind (s : Scopes) (name : String) (v : Value) :
    Fills s.frames (s.bind name v).frames := by
  obtain ⟨f, fs, hframes⟩ := List.exists_cons_of_ne_nil s.frames_ne_nil
  rw [frames_bind, hframes]
  exact .put .refl name v

theorem fills_assign (s : Scopes) (name : String) (v : Value) :
    Fills s.frames (s.assign name v).frames := by
  rw [assign_frames]
  cases hgive : replace? name v s.frames with
  | none => exact s.fills_bind name v
  | some fs => exact .give .refl hgive

/-- Closing all frames but the lowest ones leaves those. -/
theorem frames_keep {s : Scopes} {opened : List Frame} {depth : Nat} (h : s.frames = opened ++ fs)
    (hlength : fs.length = depth + 1) : (s.keep depth).frames = fs := by
  have hopened : s.inner.length - depth = opened.length := by
    have := congrArg List.length h
    rw [length_frames, List.length_append, Scopes.depth] at this
    omega
  rw [keep, hopened, frames, ← List.drop_append_of_le_length (by omega)]
  change s.frames.drop opened.length = fs
  rw [h, List.drop_left]

end Scopes

/-! ## Outcomes -/

/-- A routine has structured code. -/
def Value.Structured : Value → Prop
  | number _ => True
  | routine body => Instr.Structured body

/-- The frames at the end of a run satisfy something, or the lowest ones where it stopped; at its end
the machine holds structured routines only. -/
def Outcome.Ending (p : List Frame → Prop) : Outcome → Prop
  | .ok m => m.All Value.Structured ∧ p m.scopes.frames
  | .error (_, m) => ∃ fs, fs <:+ m.scopes.frames ∧ p fs

/-- The frames satisfy something at the end of a run, and no others are open where it stopped. -/
def Outcome.Closing (p : List Frame → Prop) (o : Outcome) : Prop :=
  p o.machine.scopes.frames ∧ ∀ m, o = .ok m → m.All Value.Structured

theorem Outcome.Closing.ending {p : List Frame → Prop} {o : Outcome} (h : o.Closing p) :
    o.Ending p := by
  cases o with
  | ok m => exact ⟨h.2 m rfl, h.1⟩
  | error stop => exact ⟨_, List.suffix_rfl, h.1⟩

namespace Outcome.Ending

variable {p q : List Frame → Prop} {o : Outcome}

theorem stopped {fault : RunFault} {m : Machine} (h : p m.scopes.frames) :
    Outcome.Ending p (.error (fault, m)) := ⟨_, List.suffix_rfl, h⟩

theorem bind {f : Machine → Outcome} (h : o.Ending p)
    (hstop : ∀ fs, p fs → ∃ gs, gs <:+ fs ∧ q gs)
    (hf : ∀ m, m.All Value.Structured → p m.scopes.frames → (f m).Ending q) :
    Outcome.Ending q (o >>= f) := by
  cases o with
  | ok m => exact hf m h.1 h.2
  | error stop =>
    obtain ⟨fs, hfs, hp⟩ := h
    obtain ⟨gs, hgs, hq⟩ := hstop fs hp
    exact ⟨gs, hgs.trans hfs, hq⟩

theorem mono (h : o.Ending p) (hpq : ∀ fs, p fs → q fs) : o.Ending q := by
  cases o with
  | ok m => exact ⟨h.1, hpq _ h.2⟩
  | error stop =>
    obtain ⟨fs, hfs, hp⟩ := h
    exact ⟨fs, hfs, hpq fs hp⟩

end Outcome.Ending

namespace Instr

open Machine Scopes

variable {i : Instr} {m m' m₀ : Machine}

/-! ## One instruction -/

theorem Does.fills (h : Does i m m') (hi : i ≠ .enter ∧ i ≠ .leave) :
    Fills m.scopes.frames m'.scopes.frames := by
  cases h with
  | assign h => exact fills_assign _ _ _
  | bind h => exact fills_bind _ _ _
  | load name =>
    unfold Machine.load
    split <;> exact .refl
  | enter => exact absurd rfl hi.1
  | leave h => exact absurd rfl hi.2
  | _ => exact .refl

theorem Stops.frames {fault : RunFault} (h : Stops i m fault m') :
    m'.scopes.frames = m.scopes.frames := by
  cases h <;> rfl

/-- A call closes the frames above those that were open before it, however it ends. -/
theorem call_closing {p : String → Prop} {o : Outcome}
    (h : o.Ending (Below p m.scopes.frames)) :
    (Instr.call.outcome m o).Closing (Rewrites p m.scopes.frames) := by
  have hkeep {s : Scopes} {gs : List Frame} (opened : List Frame) (hs : s.frames = opened ++ gs)
      (hgs : Rewrites p m.scopes.frames gs) :
      Rewrites p m.scopes.frames (s.keep m.scopes.depth).frames := by
    rw [frames_keep hs (hgs.length.trans m.scopes.length_frames)]
    exact hgs
  cases o with
  | ok m' =>
    obtain ⟨hall, g, gs, hframes, hgs⟩ := h
    refine ⟨hkeep [g] hframes hgs, ?_⟩
    rintro _ ⟨⟩
    exact closing_all .call m hall
  | error stop =>
    obtain ⟨_, ⟨opened, hframes⟩, g, gs, rfl, hgs⟩ := h
    refine ⟨hkeep (opened ++ [g]) ?_ hgs, nofun⟩
    rw [← hframes, List.append_assoc]
    rfl

/-- One instruction that opens and closes no frame, given what the code inside does. -/
theorem step_ending {run : List Instr → Machine → Outcome} (hi : i ≠ .enter ∧ i ≠ .leave)
    (hpush : ∀ body, i = .pushRoutine body → Structured body)
    (hinside : ∀ body m₀, Runs i m body m₀ → (run body m₀).Ending (Fills m₀.scopes.frames))
    (hm : m.All Value.Structured) : (i.step run m).Ending (Fills m.scopes.frames) := by
  rcases step_cases i m with ⟨m', hdoes⟩ | ⟨body, m₀, hruns⟩ | ⟨fault, m', hstops⟩
  · rw [hdoes.step]
    exact ⟨hdoes.all (fun _ => trivial) hpush hm, hdoes.fills hi⟩
  · have hends := hinside body m₀ hruns
    rw [hruns.step]
    cases hruns with
    | call h =>
      have hclosing := call_closing (m := m) (hends.mono fun _ => Fills.tail)
      exact hclosing.ending.mono fun _ => Rewrites.fills
    | skipUnless h | consequent h | alternate h =>
      rw [outcome_of_ne (by simp)]
      exact hends
  · rw [hstops.step]
    exact .stopped (hstops.frames.symm ▸ .refl)

end Instr

namespace Machine

open Instr Scopes

/-! ## Code -/

variable {depth : Nat} {code : List Instr} {m : Machine}

/-- One instruction by itself. -/
theorem execute_single (i : Instr) (m : Machine) :
    execute (depth + 1) [i] m = i.step (execute depth) m := by
  rw [execute_cons]
  cases i.step (execute depth) m <;> rfl

/-- Code in a frame of its own. -/
theorem execute_enter_leave
    (h : ∀ m : Machine, m.All Value.Structured →
      (execute depth code m).Ending (Fills m.scopes.frames))
    (hm : m.All Value.Structured) : (execute depth (.enter :: (code ++ [.leave])) m).Ending
      (Rewrites (fun _ => True) m.scopes.frames) := by
  cases depth with
  | zero => exact .stopped .refl
  | succ depth =>
    have hbody : (execute (depth + 1) code { m with scopes := m.scopes.enter }).Ending
        (Below (· ∉ Frame.names []) m.scopes.frames) := (h _ hm.enter).mono fun _ => Fills.tail
    rw [execute_cons, (Does.enter m).step]
    change Outcome.Ending _ (execute (depth + 1) (code ++ [.leave]) _)
    rw [execute_append]
    refine hbody.bind ?_ fun m₁ hall hbelow => ?_
    · rintro _ ⟨g, hs, rfl, hrewrites⟩
      exact ⟨hs, List.suffix_cons g hs, hrewrites.mono fun _ _ => trivial⟩
    · obtain ⟨g, hs, hframes, hrewrites⟩ := hbelow
      have hopen : 1 < m₁.scopes.frames.length := by
        rw [hframes, List.length_cons, hrewrites.length, Scopes.length_frames]
        omega
      obtain ⟨scopes, hleave, hclosed⟩ := Scopes.leave?_frames hopen
      rw [hframes, List.tail_cons] at hclosed
      have hdoes : Does .leave m₁ { m₁ with scopes } := .leave hleave
      rw [execute_single, hdoes.step]
      refine ⟨hall.leave hleave, ?_⟩
      exact hclosed.symm ▸ hrewrites.mono fun _ _ => trivial

/-- Structured code fills frames, and where it stops it has done so to the lowest ones. -/
theorem execute_ending (h : Structured code) (hm : m.All Value.Structured) :
    (execute depth code m).Ending (Fills m.scopes.frames) := by
  induction depth generalizing code m with
  | zero => exact .stopped .refl
  | succ depth ih =>
    induction h generalizing m with
    | nil => exact ⟨hm, .refl⟩
    | @simple i h =>
      have hi : i ≠ .enter ∧ i ≠ .leave := by constructor <;> rintro rfl <;> exact h
      rw [execute_single]
      refine step_ending hi ?_ (fun body m₀ hruns => ?_) hm
      · rintro body rfl
        exact h.elim
      · have hall := hruns.all hm
        cases hruns with
        | call hcall => exact ih (hm.operands hcall).1 hall
        | skipUnless | consequent | alternate => exact h.elim
    | append h hafter ih₁ ih₂ =>
      rw [execute_append]
      refine (ih₁ hm).bind (fun fs hfs => ⟨fs, List.suffix_rfl, hfs⟩) fun m₁ hall hfills => ?_
      exact (ih₂ hall).mono fun _ => hfills.trans
    | routine h =>
      rw [execute_single]
      refine step_ending ⟨nofun, nofun⟩ ?_ nofun hm
      rintro body ⟨⟩
      exact h
    | skipUnless h =>
      rw [execute_single]
      refine step_ending ⟨nofun, nofun⟩ nofun (fun body m₀ hruns => ?_) hm
      have hall := hruns.all hm
      cases hruns
      exact ih h hall
    | branch hconsequent halternate =>
      rw [execute_single]
      refine step_ending ⟨nofun, nofun⟩ nofun (fun body m₀ hruns => ?_) hm
      have hall := hruns.all hm
      cases hruns with
      | consequent => exact ih hconsequent hall
      | alternate => exact ih halternate hall
    | block h ihBody =>
      exact (execute_enter_leave (fun m hm => ihBody hm) hm).mono fun _ => Rewrites.fills

/-- A block gives values to names where they are known, and changes nothing else of the frames. -/
theorem execute_block (body : List Expr) (hm : m.All Value.Structured) :
    (execute depth (Expr.block body).code m).Ending
      (Rewrites (fun _ => True) m.scopes.frames) := by
  have hbody : Structured (Expr.codeAllOnto body []) :=
    Expr.codeAllOnto_structured (Expr.all_structured body)
  rw [Expr.code_block]
  exact execute_enter_leave (fun m hm => execute_ending hbody hm) hm

/-! ## Calls -/

/-- The routine of a closure runs in a frame that knows its parameters, once they have values; below
it they get none. -/
theorem execute_routine {params : List String} {f : Frame} {fs : List Frame} (h : Structured code)
    (hm : m.All Value.Structured) (hframes : m.scopes.frames = f :: fs) :
    (execute depth (params.map .bind ++ code) m).Ending
      (Below (fun name => name ∉ params ∧ name ∉ f.names) fs) := by
  cases depth with
  | zero => exact .stopped ⟨f, fs, hframes, .refl⟩
  | succ depth =>
    induction params generalizing f m with
    | nil =>
      refine (execute_ending h hm).mono fun gs hfills => ?_
      rw [hframes] at hfills
      obtain ⟨g, hs, heq, hrewrites⟩ := hfills.tail
      exact ⟨g, hs, heq, hrewrites.mono fun name hname => ⟨List.not_mem_nil, hname⟩⟩
    | cons param params ih =>
      rw [List.map_cons, List.cons_append, execute_cons]
      rcases step_cases (.bind param) m with ⟨m', hdoes⟩ | ⟨_, _, hruns⟩ | ⟨fault, m', hstops⟩
      · have hall := hdoes.all (fun _ => trivial) nofun hm
        rw [hdoes.step]
        cases hdoes with
        | @bind _ _ v rest hoperands =>
          have hframes' : (m.scopes.bind param v).frames = f.put param v :: fs := by
            rw [Scopes.frames_bind, hframes, List.modify_zero_cons]
          refine (ih hall hframes').mono ?_
          rintro _ ⟨g, hs, rfl, hrewrites⟩
          refine ⟨g, hs, rfl, hrewrites.mono fun name hname => ?_⟩
          obtain ⟨hparams, hframe⟩ := hname
          rw [Frame.mem_names_put, not_or] at hframe
          exact ⟨List.not_mem_cons_of_ne_of_not_mem hframe.1 hparams, hframe.2⟩
      · cases hruns
      · rw [hstops.step]
        exact .stopped ⟨f, fs, hstops.frames.trans hframes, .refl⟩

/-- A call of a closure gives values to names where they are known, but not to its parameters. -/
theorem execute_closure {params : List String} {rest : List Value} (h : Structured code)
    (hm : m.All Value.Structured)
    (hcall : m.operands = .routine (params.map .bind ++ code) :: rest) :
    (execute depth [.call] m).Closing (Rewrites (· ∉ params) m.scopes.frames) := by
  cases depth with
  | zero => exact ⟨.refl, nofun⟩
  | succ depth =>
    have hruns := Runs.call hcall
    rw [execute_single, hruns.step]
    refine call_closing ((execute_routine h (hruns.all hm) rfl).mono ?_)
    rintro _ ⟨g, hs, rfl, hrewrites⟩
    exact ⟨g, hs, rfl, hrewrites.mono fun name hname => hname.1⟩

/-- A call gives values to names where they are known, whatever is called. -/
theorem execute_calling (hm : m.All Value.Structured) :
    (execute depth [.call] m).Closing (Rewrites (fun _ => True) m.scopes.frames) := by
  cases depth with
  | zero => exact ⟨.refl, nofun⟩
  | succ depth =>
    rcases step_cases .call m with ⟨m', hdoes⟩ | ⟨body, m₀, hruns⟩ | ⟨fault, m', hstops⟩
    · have hall := hdoes.all (fun _ => trivial) nofun hm
      rw [execute_single, hdoes.step]
      cases hdoes
      refine ⟨.refl, ?_⟩
      rintro _ ⟨⟩
      exact hall
    · cases hruns with
      | call hcall =>
        have hbody : Structured body := (hm.operands hcall).1
        have hclosing : (execute (depth + 1) [.call] m).Closing
            (Rewrites (· ∉ ([] : List String)) m.scopes.frames) := execute_closure hbody hm hcall
        exact ⟨hclosing.1.mono fun _ _ => trivial, hclosing.2⟩
    · rw [execute_single, hstops.step]
      exact ⟨hstops.frames.symm ▸ .refl, nofun⟩

end Machine

end Calculator
