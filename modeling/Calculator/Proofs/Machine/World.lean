import Calculator.Proofs.Machine.Held

/-
  What an expression reads and changes besides its value: the frames that names have values in, the
  random numbers, and what has been noted.  The frames of a machine are taken as one list here, the
  innermost first, and the operations on its scopes as operations on that list (`frames_assign`).
-/

namespace Calculator

/-- The frames, the innermost first, the random numbers to come, and what has been noted. -/
structure World where
  frames : List Frame
  generator : Generator
  diagnostics : List Diagnostic

namespace World

/-- The value of a name in the innermost frame that knows it; a name that none knows counts as zero
and is noted. -/
def lookup (w : World) (name : String) : Value × World :=
  match w.frames.findSome? (·.find? name) with
  | some v => (v, w)
  | none => (.number 0, { w with diagnostics := w.diagnostics ++ [.undefined name] })

/-- Gives a name a value in the innermost frame that knows it, else in the innermost one. -/
def assign (w : World) (name : String) (v : Value) : World :=
  let place := (w.frames.findIdx? (·.knows name)).getD 0
  { w with frames := w.frames.modify place (·.put name v) }

/-- Draws a random number. -/
def draw (w : World) : Value × World :=
  let (x, generator) := w.generator.next
  (.number x, { w with generator })

/-- Opens a frame. -/
def enter (w : World) : World := { w with frames := [] :: w.frames }

/-- Closes the innermost frame. -/
def leave (w : World) : World := { w with frames := w.frames.tail }

theorem lookup_frames (w : World) (name : String) : (w.lookup name).2.frames = w.frames := by
  unfold lookup
  split <;> rfl

theorem length_assign (w : World) (name : String) (v : Value) :
    (w.assign name v).frames.length = w.frames.length := List.length_modify _ _ _

end World

namespace Scopes

theorem length_frames (s : Scopes) : s.frames.length = s.depth + 1 := by
  rw [frames, List.length_append]
  rfl

/-- Any frame but the last can be closed. -/
theorem leave?_frames {s : Scopes} (h : 1 < s.frames.length) :
    ∃ s', s.leave? = some s' ∧ s'.frames = s.frames.tail := by
  obtain ⟨inner, globals⟩ := s
  cases inner with
  | nil => exact absurd h (by simp [frames])
  | cons frame outer => exact ⟨⟨outer, globals⟩, rfl, rfl⟩

theorem frames_bind (s : Scopes) (name : String) (v : Value) :
    (s.bind name v).frames = s.frames.modify 0 (·.put name v) := by
  obtain ⟨inner, globals⟩ := s
  cases inner <;> rfl

theorem replace?_eq (name : String) (v : Value) (fs : List Frame) :
    replace? name v fs =
      (fs.findIdx? (·.knows name)).map (fs.modify · (·.put name v)) := by
  induction fs with
  | nil => rfl
  | cons f fs ih =>
    rw [replace?, List.findIdx?_cons, ih]
    split
    · rfl
    · rw [Option.map_map, Option.map_map]
      rfl

theorem replace?_append (name : String) (v : Value) (fs gs : List Frame) :
    replace? name v (fs ++ gs) =
      ((replace? name v fs).map (· ++ gs)).or ((replace? name v gs).map (fs ++ ·)) := by
  induction fs with
  | nil => cases h : replace? name v gs <;> simp [replace?, h]
  | cons f fs ih =>
    rw [List.cons_append, replace?, replace?, ih]
    split
    · rfl
    · cases replace? name v fs <;> cases replace? name v gs <;> rfl

theorem assign_frames (s : Scopes) (name : String) (v : Value) :
    (s.assign name v).frames = (replace? name v s.frames).getD (s.bind name v).frames := by
  have hreplace := replace?_append name v s.inner [s.globals]
  rw [← frames] at hreplace
  rw [hreplace, replace?, replace?, assign]
  cases replace? name v s.inner with
  | some inner => rfl
  | none => dsimp only; split <;> rfl

/-- A name gets a value in the innermost frame that knows it, else in the innermost one. -/
theorem frames_assign (s : Scopes) (name : String) (v : Value) : (s.assign name v).frames =
    s.frames.modify ((s.frames.findIdx? (·.knows name)).getD 0) (·.put name v) := by
  rw [assign_frames, replace?_eq, frames_bind]
  cases s.frames.findIdx? (·.knows name) <;> rfl

end Scopes

namespace Machine

/-- What a machine has besides its operands. -/
def world (m : Machine) : World := ⟨m.scopes.frames, m.generator, m.diagnostics⟩

theorem load_eq (m : Machine) (name : String) :
    (m.load name).operands = (m.world.lookup name).1 :: m.operands ∧
      (m.load name).world = (m.world.lookup name).2 := by
  unfold load World.lookup
  rw [Scopes.find?]
  cases h : m.scopes.frames.findSome? (·.find? name) <;> simp [world, h, push, note]

/-- A name that means a routine has it as its value, as a name without value counts as a number. -/
theorem find?_of_lookup {m : Machine} {name : String} {code : List Instr}
    (h : (m.world.lookup name).1 = .routine code) :
    m.scopes.find? name = some (.routine code) := by
  have hload := (load_eq m name).1
  rw [h] at hload
  unfold load at hload
  split at hload
  · rename_i v hfind
    obtain ⟨rfl, -⟩ := List.cons.inj hload
    exact hfind
  · cases hload

end Machine

end Calculator
