import Calculator.Proofs.Machine.Frames
import Calculator.Proofs.Machine.Parameters
import Calculator.Proofs.Number.Natural

/-
  Counted repetition by recursion.  `loop` calls its third argument and then itself, until its first
  argument has counted up to the second.  Each turn opens the frame of a call and those of two blocks;
  the names that are not parameters are found below them all, in the global frame.  By induction on
  the turns that are left, a run closes all frames that it opened and leaves nothing on the stack
  (`execute_loop`), however many turns there are.
-/

namespace Calculator

/-! ## Names of the global frame -/

namespace Frame

variable {f : Frame} {name : String} {v : Value}

theorem find?_of_notMem (h : name ∉ f.names) : f.find? name = none := by
  induction f with
  | nil => rfl
  | cons entry others ih =>
    obtain ⟨known, old⟩ := entry
    obtain ⟨hne, hothers⟩ := not_or.1 (List.mem_cons.not.1 h)
    rw [find?, if_neg (Ne.symm hne), ih hothers]

theorem mem_names_of_find? (h : f.find? name = some v) : name ∈ f.names := by
  by_contra hnot
  cases h.symm.trans (find?_of_notMem hnot)

theorem find?_put (f : Frame) (name : String) (v : Value) : (f.put name v).find? name = some v := by
  induction f with
  | nil => exact if_pos rfl
  | cons entry others ih =>
    obtain ⟨known, old⟩ := entry
    unfold put
    split
    · exact if_pos rfl
    · next hne => rw [find?, if_neg hne, ih]

/-- Of two values for a name the second one stays. -/
theorem put_put (f : Frame) (name : String) (v w : Value) :
    (f.put name v).put name w = f.put name w := by
  induction f with
  | nil => exact if_pos rfl
  | cons entry others ih =>
    obtain ⟨known, old⟩ := entry
    by_cases hknown : known = name
    · rw [put, if_pos hknown, put, if_pos rfl, put, if_pos hknown]
    · rw [put, if_neg hknown, put, if_neg hknown, ih, put, if_neg hknown]

/-- Giving a name the value that it has changes nothing. -/
theorem put_of_find? (h : f.find? name = some v) : f.put name v = f := by
  induction f with
  | nil => cases h
  | cons entry others ih =>
    obtain ⟨known, old⟩ := entry
    unfold find? at h
    unfold put
    split at h
    · next heq => rw [if_pos heq, Option.some.inj h, heq]
    · next hne => rw [if_neg hne, ih h]

end Frame

namespace Scopes

/-- No frame but the global one knows a name. -/
def IsGlobal (s : Scopes) (name : String) : Prop := ∀ f ∈ s.inner, name ∉ f.names

variable {s : Scopes} {name : String}

theorem find?_global (h : s.IsGlobal name) : s.find? name = s.globals.find? name := by
  have hnone : s.inner.findSome? (·.find? name) = none :=
    List.findSome?_eq_none_iff.2 fun f hf => Frame.find?_of_notMem (h f hf)
  rw [find?, frames, List.findSome?_append, hnone, Option.none_or]
  exact List.findSome?_singleton

theorem assign_global (h : s.IsGlobal name) (hknown : name ∈ s.globals.names) (v : Value) :
    s.assign name v = { s with globals := s.globals.put name v } := by
  have hnone : s.inner.findIdx? (·.knows name) = none :=
    List.findIdx?_eq_none_iff.2 fun f hf => Bool.eq_false_iff.2 fun hknows =>
      h f hf (Frame.knows_iff.1 hknows)
  rw [assign, replace?_eq, hnone, Option.map_none, if_pos (Frame.knows_iff.2 hknown)]

end Scopes

namespace Machine

open Instr Number

/-- A machine with a value of a name in the global frame. -/
def setGlobal (name : String) (v : Value) (m : Machine) : Machine :=
  { m with scopes := { m.scopes with globals := m.scopes.globals.put name v } }

theorem setGlobal_setGlobal (m : Machine) (name : String) (v w : Value) :
    (m.setGlobal name v).setGlobal name w = m.setGlobal name w := by
  unfold setGlobal
  dsimp only
  rw [Frame.put_put]

theorem setGlobal_of_find? {m : Machine} {name : String} {v : Value}
    (h : m.scopes.globals.find? name = some v) : m.setGlobal name v = m := by
  unfold setGlobal
  rw [Frame.put_of_find? h]

/-- A call that has given a global name a value leaves that and the operands. -/
theorem keepAfter_setGlobal (m : Machine) (name : String) (v : Value) (f : Frame)
    (operands : List Value) :
    keepAfter m.scopes.depth (.ok ((m.setGlobal name v).within f operands)) =
      .ok { m.setGlobal name v with operands } :=
  congrArg Except.ok (keep_within (m.setGlobal name v) f operands)

/-! ## The loop -/

/-- `let y = y + 1`. -/
def increment : Expr := .assign "y" (.binary (.reference "y") .add (.literal 1))

/-- `{ f(); loop(i + 1, n, f); }`. -/
def turn : Expr := .block [.call "f" [],
  .call "loop" [.binary (.reference "i") .add (.literal 1), .reference "n", .reference "f"]]

/-- `{ if (i < n) { f(); loop(i + 1, n, f); } else {} }`. -/
def loopBody : Expr :=
  .block [.ifElse (.binary (.reference "i") .less (.reference "n")) turn (.block [])]

/-- The parameters of the loop. -/
def loopParams : List String := ["i", "n", "f"]

/-- The routine of `(i, n, f) => { if (i < n) { f(); loop(i + 1, n, f); } else {} }`. -/
def loopRoutine : List Instr := loopParams.map .bind ++ loopBody.code

/-- The arguments of the loop, when it increments. -/
def loopValues (i n : Number) : List Value := [.number i, .number n, .routine increment.code]

/-- The frame of a call of the loop. -/
def loopFrame (i n : Number) : Frame := loopParams.zip (loopValues i n)

/-- A machine on which `loop` and `y` mean what the global frame says: the loop and a number. -/
structure Loops (m : Machine) (y : Number) : Prop where
  loop : m.scopes.globals.find? "loop" = some (.routine loopRoutine)
  y : m.scopes.globals.find? "y" = some (.number y)
  global : m.scopes.IsGlobal "loop" ∧ m.scopes.IsGlobal "y"

section Loops

variable {depth : Nat} {m : Machine} {x y : Number}

theorem Loops.within (h : m.Loops y) {f : Frame} (hloop : "loop" ∉ f.names) (hy : "y" ∉ f.names)
    (operands : List Value) : (m.within f operands).Loops y :=
  ⟨h.loop, h.y, List.forall_mem_cons.2 ⟨hloop, h.global.1⟩,
    List.forall_mem_cons.2 ⟨hy, h.global.2⟩⟩

theorem Loops.setGlobal (h : m.Loops y) (x : Number) : (m.setGlobal "y" (.number x)).Loops x :=
  ⟨(Frame.find?_put_of_ne (by decide)).trans h.loop, Frame.find?_put _ _ _, h.global⟩

/-- Adding one to `y`. -/
theorem execute_increment (h : m.Loops y) :
    execute (depth + 1) increment.code m = .ok (m.setGlobal "y" (.number (y + 1))) := by
  have hload : m.load "y" = m.push (.number y) := by
    rw [load, Scopes.find?_global h.global.2, h.y]
  have hassign : m.scopes.assign "y" (.number (y + 1)) =
      { m.scopes with globals := m.scopes.globals.put "y" (.number (y + 1)) } :=
    Scopes.assign_global h.global.2 (Frame.mem_names_of_find? h.y) _
  change execute (depth + 1) [.load "y", .push 1, .arithmetic .add, .assign "y"] m = _
  rw [execute_cons, (Does.load "y" m).step, hload]
  change Except.ok { m with scopes := m.scopes.assign "y" (.number (y + 1)) } = _
  rw [hassign]
  rfl

/-- Calling the increment changes nothing else. -/
theorem execute_call_increment (h : m.Loops y) {name : String}
    (hname : m.scopes.find? name = some (.routine increment.code)) (after : List Instr) :
    execute (depth + 2) (.load name :: .call :: after) m =
      execute (depth + 2) after (m.setGlobal "y" (.number (y + 1))) := by
  have hcall : (m.within [] m.operands).Loops y := h.within List.not_mem_nil List.not_mem_nil _
  rw [execute_load_call hname, execute_increment hcall]
  change keepAfter m.scopes.depth (.ok ((m.setGlobal "y" _).within [] m.operands)) >>= _ = _
  rw [keepAfter_setGlobal]
  rfl

/-- The test of the loop. -/
theorem execute_test (m : Machine) (i n : Number) (operands : List Value) (after : List Instr) :
    execute (depth + 1)
        (Expr.codeOnto (.binary (.reference "i") .less (.reference "n")) after)
        ((m.within (loopFrame i n) operands).within [] operands) =
      execute (depth + 1) after ((m.within (loopFrame i n) operands).within []
        (.number (Comparison.less.apply i n) :: operands)) := by
  rfl

/-- The arguments of the loop for the next turn. -/
theorem execute_arguments (m : Machine) (i n : Number) (operands : List Value)
    (after : List Instr) :
    execute (depth + 1) (.load "f" :: .load "n" :: .load "i" :: .push 1 :: .arithmetic .add :: after)
        (((m.within (loopFrame i n) operands).within [] operands).within [] operands) =
      execute (depth + 1) after (((m.within (loopFrame i n) operands).within [] operands).within []
        (loopValues (i + 1) n ++ operands)) := by
  rfl

/-- Neither the parameters of the loop nor a block hide the loop or `y`. -/
theorem Loops.inside (h : m.Loops y) (i n : Number) (operands : List Value) :
    ((m.within (loopFrame i n) operands).within [] operands).Loops y :=
  have hloop : "loop" ∉ (loopFrame i n).names := show "loop" ∉ loopParams by decide
  have hy : "y" ∉ (loopFrame i n).names := show "y" ∉ loopParams by decide
  (h.within hloop hy _).within List.not_mem_nil List.not_mem_nil _

/-- A turn adds one to `y` and does what the loop does then. -/
theorem execute_turn {i n z : Number} {operands : List Value} (h : m.Loops y)
    (hloop : ∀ m : Machine, m.Loops (y + 1) →
      execute (depth + 1) loopBody.code (m.within (loopFrame (i + 1) n) operands) =
        .ok ((m.setGlobal "y" (.number z)).within (loopFrame (i + 1) n) operands)) :
    execute (depth + 2) turn.code ((m.within (loopFrame i n) operands).within [] operands) =
      .ok (((m.setGlobal "y" (.number z)).within (loopFrame i n) operands).within [] operands) := by
  -- The block of the turn opens a frame inside that of the body.
  let inside (m : Machine) (values : List Value) : Machine :=
    ((m.within (loopFrame i n) operands).within [] operands).within [] values
  have hinside {m : Machine} {y : Number} (h : m.Loops y) (values : List Value) :
      (inside m values).Loops y :=
    (h.inside i n operands).within List.not_mem_nil List.not_mem_nil values
  let m₁ := m.setGlobal "y" (.number (y + 1))
  have hnext := hinside (h.setGlobal (y + 1)) (loopValues (i + 1) n ++ operands)
  have hcall : (inside m₁ (loopValues (i + 1) n ++ operands)).scopes.find? "loop" =
      some (.routine loopRoutine) := (Scopes.find?_global hnext.global.1).trans hnext.loop
  have hparams : loopParams.Nodup := by decide
  calc execute (depth + 2) turn.code ((m.within (loopFrame i n) operands).within [] operands)
      = execute (depth + 2) (.load "f" :: .call :: .load "f" :: .load "n" :: .load "i" :: .push 1 ::
          .arithmetic .add :: .load "loop" :: .call :: [.leave]) (inside m operands) := rfl
    _ = execute (depth + 2) (.load "f" :: .load "n" :: .load "i" :: .push 1 :: .arithmetic .add ::
          .load "loop" :: .call :: [.leave]) (inside m₁ operands) :=
        execute_call_increment (hinside h operands) rfl _
    _ = execute (depth + 2) (.load "loop" :: .call :: [.leave])
          (inside m₁ (loopValues (i + 1) n ++ operands)) := execute_arguments m₁ i n operands _
    _ = (keepAfter _ (execute (depth + 1) loopBody.code ((inside m₁
          (loopValues (i + 1) n ++ operands)).within (loopFrame (i + 1) n) operands)) >>= _) :=
        execute_call_values hparams rfl rfl hcall depth _
    _ = .ok (((m.setGlobal "y" (.number z)).within (loopFrame i n) operands).within [] operands) := by
        rw [hloop _ hnext, keepAfter_setGlobal, ← setGlobal_setGlobal m "y" (.number (y + 1))]
        rfl

/-- The body of the loop is a turn or nothing, by its test. -/
theorem execute_loopBody (m : Machine) (i n : Number) (operands : List Value) :
    execute (depth + 2) loopBody.code (m.within (loopFrame i n) operands) =
      (execute (depth + 1) (if Comparison.less.apply i n != 0 then turn.code else [.enter, .leave])
        ((m.within (loopFrame i n) operands).within [] operands) >>=
          execute (depth + 2) [.leave]) := by
  let tested := (m.within (loopFrame i n) operands).within []
    (.number (Comparison.less.apply i n) :: operands)
  have hbranch : execute (depth + 2) loopBody.code (m.within (loopFrame i n) operands) =
      execute (depth + 2) (.branch turn.code [.enter, .leave] :: [.leave]) tested :=
    execute_test m i n operands _
  have hne : Instr.branch turn.code [.enter, .leave] ≠ .call := nofun
  rw [hbranch, execute_cons]
  by_cases htest : (Comparison.less.apply i n != 0) = true
  · have hruns : Runs (.branch turn.code [.enter, .leave]) tested turn.code
        { tested with operands } := .consequent rfl htest
    rw [if_pos htest, hruns.step, outcome_of_ne hne]
    rfl
  · have hruns : Runs (.branch turn.code [.enter, .leave]) tested [.enter, .leave]
        { tested with operands } := .alternate rfl (Bool.eq_false_of_not_eq_true htest)
    rw [if_neg htest, hruns.step, outcome_of_ne hne]
    rfl

/-- The loop adds one to `y` as often as it is still to turn, and leaves nothing behind. -/
theorem execute_loop {i k n : Nat} (hk : i + k = n) (hn : n < 2 ^ 53) (h : m.Loops y)
    (operands : List Value) :
    execute (depth + 2 * k + 2) loopBody.code
        (m.within (loopFrame (natural i) (natural n)) operands) =
      .ok ((m.setGlobal "y" (.number ((· + 1)^[k] y))).within
        (loopFrame (natural i) (natural n)) operands) := by
  induction k generalizing i m y with
  | zero =>
    have hstops : ¬ (Comparison.less.apply (natural i) (natural n) != 0) = true := by
      rw [Comparison.less_natural (by omega) hn]
      simp only [decide_eq_true_eq]
      omega
    rw [execute_loopBody, if_neg hstops, Function.iterate_zero_apply, setGlobal_of_find? h.y]
    rfl
  | succ k ih =>
    have hturns : (Comparison.less.apply (natural i) (natural n) != 0) = true := by
      rw [Comparison.less_natural (by omega) hn, decide_eq_true_eq]
      omega
    have hnext (m : Machine) (h : m.Loops (y + 1)) :
        execute (depth + 2 * k + 1 + 1) loopBody.code
            (m.within (loopFrame (natural i + 1) (natural n)) operands) =
          .ok ((m.setGlobal "y" (.number ((· + 1)^[k] (y + 1)))).within
            (loopFrame (natural i + 1) (natural n)) operands) := by
      rw [natural_add_one (by omega)]
      exact ih (by omega) h
    rw [execute_loopBody, if_pos hturns, Function.iterate_succ_apply]
    change (execute (depth + 2 * k + 1 + 2) turn.code _ >>= _ : Outcome) = _
    rw [execute_turn h hnext]
    rfl

end Loops

end Machine

end Calculator
