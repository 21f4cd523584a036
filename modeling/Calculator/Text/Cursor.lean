import Calculator.Text.Location
import Calculator.Text.Pattern

/-
  A cursor is a text and an offset in it.  To nibble is to take what a pattern matches at the
  offset, and to chomp is to drop it; a match of nothing is no match for either.  The text itself
  is never cut, so locations count from its start.
-/

namespace Calculator

/-- A text and how much of it has been read. -/
structure Cursor where
  text : Array Char
  offset : Nat := 0

namespace Cursor

/-- The cursor before a whole text. -/
def ofString (source : String) : Cursor := ⟨source.toList.toArray, 0⟩

/-- What is left to read. -/
def rest (c : Cursor) : List Char := (c.text.extract c.offset c.text.size).toList

/-- Whether nothing is left to read. -/
def isEmpty (c : Cursor) : Bool := c.text.size ≤ c.offset

/-- Where the cursor stands. -/
def location (c : Cursor) : Location := Location.ofOffset c.text c.offset

/-- Where a match of at least one character ends. -/
def stop? (c : Cursor) (p : Pattern) : Option Nat :=
  (p.matchEnd? c.text c.offset).filter (c.offset < ·)

/-- What a pattern matches, and the cursor after it. -/
def nibble? (c : Cursor) (p : Pattern) : Option (List Char × Cursor) :=
  (c.stop? p).map fun stop => ((c.text.extract c.offset stop).toList, { c with offset := stop })

/-- The cursor after what a pattern matches, if anything. -/
def chomp (c : Cursor) (p : Pattern) : Cursor := ((c.nibble? p).map (·.2)).getD c

/-- Whether a pattern matches something. -/
def canNibble (c : Cursor) (p : Pattern) : Bool := (c.stop? p).isSome

end Cursor

end Calculator
