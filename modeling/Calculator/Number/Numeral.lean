import Calculator.Number.Decimal

/-
  Numerals of the language: digits with at most one point among them, perhaps after a minus.  A
  numeral is read as the nearest double, however many digits it has.
-/

namespace Calculator

namespace Numeral

/-- The decimal that digits and a point stand for. -/
def decimal (cs : List Char) : Decimal :=
  let whole := cs.takeWhile (· != '.')
  let fraction := (cs.dropWhile (· != '.')).drop 1
  ⟨Nat.ofDigitChars 10 (whole ++ fraction) 0, -fraction.length⟩

/-- The number that a numeral stands for; any character but a digit or a point is a minus. -/
def read (cs : List Char) : Number :=
  match cs with
  | [] => 0
  | c :: rest => if c.isDigit || c == '.' then (decimal cs).toNumber else -(decimal rest).toNumber

end Numeral

end Calculator
