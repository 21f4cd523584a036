/-
  How deep things may nest.  The host of the calculator sets the limits, and how much of the host a
  level takes is left to it.  A limit decides what is refused as too deep, and nothing else.  Reading
  a program takes most of the host, so a program that could be read is never too deep to be given
  code or a text.
-/

namespace Calculator

/-- How deep programs may nest that are read, given code or a text, or run. -/
class Limits where
  /-- How deep the expressions of a program may nest. -/
  read : Nat
  /-- How deep an expression may nest that is given code. -/
  code : Nat
  /-- How deep an expression may nest that is given a text. -/
  text : Nat
  /-- How many levels deep code may run; a branch and a call are one level each. -/
  run : Nat
  /-- Sixty levels can always be read. -/
  sixty_le_read : 60 ≤ read
  /-- One level of a program holds an operand and at most four operators around it. -/
  read_lt_code : 5 * read < code
  read_lt_text : 5 * read < text
  /-- One level of a program is at most three levels of its text, and its branches nest no deeper. -/
  read_le_run : 3 * read ≤ run

namespace Limits

theorem read_pos [Limits] : 0 < read := Nat.lt_of_lt_of_le (by decide) sixty_le_read

theorem run_pos [Limits] : 0 < run :=
  Nat.lt_of_lt_of_le (Nat.mul_pos (by decide) read_pos) read_le_run

/-- The limits of the calculator where the host sets none of its own. -/
instance usual : Limits where
  read := 190
  code := 960
  text := 960
  run := 900
  sixty_le_read := by decide
  read_lt_code := by decide
  read_lt_text := by decide
  read_le_run := by decide

end Limits

end Calculator
