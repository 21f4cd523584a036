import Calculator.Text.Letter

/-
  Patterns of text.  A pattern looks at a text from an offset on and tells where its match ends,
  without taking the text apart.  A run always matches, perhaps nothing, and so hides the later
  ones of a choice; the other patterns match or fail.
-/

namespace Calculator

/-- A way to match characters of a text. -/
inductive Pattern where
  /-- The longest run of characters of one class. -/
  | run (ok : Char → Bool)
  /-- A word that no letter and no underscore follows. -/
  | word (spelling : List Char)
  /-- Characters in a row, whatever follows. -/
  | literal (spelling : List Char)
  /-- One character out of several. -/
  | oneOf (chars : List Char)
  /-- A decimal numeral with at most one point; when signed, a minus may stand before it. -/
  | numeral (signed : Bool)
  /-- The first pattern, or where it fails the second. -/
  | either (first second : Pattern)

namespace Pattern

/-- Whether a character is read as a minus sign. -/
def isMinus (c : Char) : Bool := c == '-' || c == '−'

/-- Where the run of characters of a class ends. -/
def runEnd (ok : Char → Bool) (text : Array Char) (offset : Nat) : Nat :=
  if h : offset < text.size then
    if ok text[offset] then runEnd ok text (offset + 1) else offset
  else offset
termination_by text.size - offset

/-- Where a spelling ends that starts at the offset. -/
def literalEnd? (text : Array Char) : List Char → Nat → Option Nat
  | [], offset => if offset ≤ text.size then some offset else none
  | c :: cs, offset => if text[offset]? = some c then literalEnd? text cs (offset + 1) else none

/-- Whether the character at the offset would make a word longer. -/
def continuesWord (text : Array Char) (offset : Nat) : Bool :=
  text[offset]?.any fun c => Text.isLetter c || c == '_'

/-- Where the digits and the point of a numeral end, given whether a point and whether a digit
have been read before. -/
def numeralEnd? (text : Array Char) (offset : Nat) (point digit : Bool) : Option Nat :=
  if h : offset < text.size then
    if text[offset].isDigit then numeralEnd? text (offset + 1) point true
    else if text[offset] == '.' && !point then numeralEnd? text (offset + 1) true digit
    else if digit then some offset else none
  else if digit then some offset else none
termination_by text.size - offset

/-- Where the match ends that starts at the offset. -/
def matchEnd? (text : Array Char) (offset : Nat) : Pattern → Option Nat
  | run ok => some (runEnd ok text offset)
  | word spelling =>
    (literalEnd? text spelling offset).filter fun stop => !continuesWord text stop
  | literal spelling => literalEnd? text spelling offset
  | oneOf chars => if text[offset]?.any chars.contains then some (offset + 1) else none
  | numeral signed =>
    let first := if signed && text[offset]?.any isMinus then offset + 1 else offset
    numeralEnd? text first false false
  | either first second => (first.matchEnd? text offset).or (second.matchEnd? text offset)

end Pattern

end Calculator
