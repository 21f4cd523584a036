/-
  Places in a text.  A location is a line and a column, counted from one, and an offset, counted
  from zero; all three count characters, and only a line feed ends a line.  `Location.ofOffset`
  finds the location of an offset by counting line feeds and looking back for the last one;
  `Location.step` is the move over one character, and `Location.forward` the move to a later offset.
-/

namespace Calculator

/-- A place in a text. -/
structure Location where
  line : Nat
  column : Nat
  offset : Nat
deriving DecidableEq, Repr

namespace Location

/-- The place before the first character. -/
def start : Location := ⟨1, 1, 0⟩

/-- The place after one more character. -/
def step (l : Location) (c : Char) : Location :=
  if c = '\n' then ⟨l.line + 1, 1, l.offset + 1⟩ else ⟨l.line, l.column + 1, l.offset + 1⟩

/-- The place at a later offset. -/
def forward (l : Location) (text : Array Char) (offset : Nat) : Location :=
  (text.extract l.offset offset).foldl step l

/-- Where the line starts that the first `offset` characters lead to. -/
def lineStart (text : Array Char) : Nat → Nat
  | 0 => 0
  | offset + 1 => if text[offset]? = some '\n' then offset + 1 else lineStart text offset

/-- The location of an offset.  Past the end the column goes on counting on the last line. -/
def ofOffset (text : Array Char) (offset : Nat) : Location where
  line := (text.extract 0 offset).count '\n' + 1
  column := offset - lineStart text (min offset text.size) + 1
  offset := offset

/-- The place as text: line and column. -/
def text (l : Location) : List Char :=
  Nat.toDigits 10 l.line ++ ':' :: Nat.toDigits 10 l.column

end Location

end Calculator
