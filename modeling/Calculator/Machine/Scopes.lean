import Calculator.Code

/-
  Values and the scopes that names have them in.  A frame gives values to names, in the order in
  which they first got one.  The scopes of a machine are the global frame, which always stays, and
  the frames opened since, the innermost first; a name means what the innermost frame that knows it
  says.
-/

namespace Calculator

/-- What names and operands are: a number, or the code of a closure. -/
inductive Value where
  | number (x : Number)
  | routine (body : List Instr)

namespace Value

/-- A value as a number; a routine counts as one, an empty one as zero. -/
def toNumber : Value → Number
  | number x => x
  | routine body => if body.isEmpty then 0 else 1

/-- A value as text; of a routine only the length shows. -/
def text : Value → List Char
  | number x => Number.text x
  | routine body => "routine(".toList ++ Nat.toDigits 10 body.length ++ " codes)".toList

end Value

/-- Values of names. -/
abbrev Frame := List (String × Value)

namespace Frame

/-- Whether a frame knows a name. -/
def knows (f : Frame) (name : String) : Bool := f.any (·.1 == name)

/-- The value that a frame gives to a name. -/
def find? : Frame → String → Option Value
  | [], _ => none
  | (known, value) :: others, name => if known = name then some value else find? others name

/-- Gives a name a value in a frame. -/
def put : Frame → String → Value → Frame
  | [], name, value => [(name, value)]
  | (known, old) :: others, name, value =>
    if known = name then (name, value) :: others else (known, old) :: put others name value

/-- The names that a frame knows. -/
def names (f : Frame) : List String := f.map (·.1)

end Frame

/-- The global frame and the frames opened since, the innermost first. -/
structure Scopes where
  inner : List Frame := []
  globals : Frame := []

namespace Scopes

/-- How many frames are open besides the global one. -/
def depth (s : Scopes) : Nat := s.inner.length

/-- All frames, the innermost first. -/
def frames (s : Scopes) : List Frame := s.inner ++ [s.globals]

/-- The value of a name in the innermost frame that knows it. -/
def find? (s : Scopes) (name : String) : Option Value :=
  s.frames.findSome? (·.find? name)

/-- Gives a name a value in the innermost frame. -/
def bind (s : Scopes) (name : String) (value : Value) : Scopes :=
  match s.inner with
  | [] => { s with globals := s.globals.put name value }
  | frame :: outer => { s with inner := frame.put name value :: outer }

/-- Gives a name a value in the innermost of some frames that knows it. -/
def replace? (name : String) (value : Value) : List Frame → Option (List Frame)
  | [] => none
  | frame :: outer =>
    if frame.knows name then some (frame.put name value :: outer)
    else (replace? name value outer).map (frame :: ·)

/-- Gives a name a value in the innermost frame that knows it, else in the innermost one. -/
def assign (s : Scopes) (name : String) (value : Value) : Scopes :=
  match replace? name value s.inner with
  | some inner => { s with inner }
  | none =>
    if s.globals.knows name then { s with globals := s.globals.put name value }
    else s.bind name value

/-- Opens a frame. -/
def enter (s : Scopes) : Scopes := { s with inner := [] :: s.inner }

/-- Closes the innermost frame, unless only the global one is left. -/
def leave? (s : Scopes) : Option Scopes :=
  match s.inner with
  | [] => none
  | _ :: outer => some { s with inner := outer }

/-- Closes the innermost frames until at most so many are open. -/
def keep (depth : Nat) (s : Scopes) : Scopes :=
  { s with inner := s.inner.drop (s.inner.length - depth) }

end Scopes

end Calculator
