import Calculator.Number.Binary

/-
  Decimal values of numbers.  A decimal is an integer times a power of ten.  `Decimal.toNumber`
  reads one as the nearest double.  `Binary.shortest` is the decimal with the fewest digits that
  reads back: it looks at ever finer powers of ten until one of the two multiples next to the
  value does, and takes the nearer one when both do, of two equally near ones the even one.
-/

namespace Calculator

/-- An integer times a power of ten. -/
structure Decimal where
  digits : Nat
  exponent : Int
deriving DecidableEq, Repr

/-- The double nearest to a decimal. -/
def Decimal.toNumber (d : Decimal) : Number :=
  if 0 ≤ d.exponent then Float.ofScientific d.digits false d.exponent.toNat
  else Float.ofScientific d.digits true (-d.exponent).toNat

namespace Binary

/-- The magnitude of a value counted in units of a power of ten, as a numerator and a
denominator. -/
def inUnits (b : Binary) (power : Int) : Nat × Nat :=
  (b.significand * Nat.pow 2 b.exponent.toNat * Nat.pow 10 (-power).toNat,
    Nat.pow 2 (-b.exponent).toNat * Nat.pow 10 power.toNat)

/-- A power of ten that is greater than the magnitude of a value and at most three too great. -/
def powerAbove (b : Binary) : Int :=
  (b.significand.log2 + 1 + b.exponent) * 30103 / 100000 + 1

/-- The multiple of a power of ten nearest to a magnitude, of two equally near ones the even one. -/
def nearestMultiple (b : Binary) (power : Int) : Nat :=
  let (n, unit) := b.inUnits power
  let below := n / unit
  match compare (2 * (n % unit)) unit with
  | .lt => below
  | .eq => below + below % 2
  | .gt => below + 1

/-- A multiple of a power of ten that reads back as `target`, among the two next to the value. -/
def readsBack? (b : Binary) (target : Number) (power : Int) : Option Decimal :=
  let (n, unit) := b.inUnits power
  let below : Decimal := ⟨n / unit, power⟩
  let above : Decimal := ⟨n / unit + 1, power⟩
  match below.toNumber == target, above.toNumber == target with
  | true, true => some ⟨b.nearestMultiple power, power⟩
  | true, false => some below
  | false, true => some above
  | false, false => none

/-- All digits of the magnitude of a value. -/
def exactDecimal (b : Binary) : Decimal :=
  if 0 ≤ b.exponent then ⟨b.significand * Nat.pow 2 b.exponent.toNat, 0⟩
  else ⟨b.significand * Nat.pow 5 (-b.exponent).toNat, b.exponent⟩

/-- The first decimal that reads back, at a power of ten and so many finer ones. -/
def shortestFrom (b : Binary) (target : Number) : Nat → Int → Decimal
  | 0, _ => b.exactDecimal
  | steps + 1, power =>
    (b.readsBack? target power).getD (b.shortestFrom target steps (power - 1))

/-- The decimal with the fewest digits that reads back as the magnitude of a value.  Seventeen
digits always do, and the search starts at most three powers too high. -/
def shortest (b : Binary) : Decimal :=
  if b.significand = 0 then ⟨0, 0⟩
  else b.shortestFrom { b with negative := false }.toNumber 21 b.powerAbove

/-- The power of ten of the leading digit of a magnitude, at a power or one of the next lower. -/
def leadingPowerFrom (b : Binary) : Nat → Int → Int
  | 0, power => power
  | steps + 1, power =>
    let (n, unit) := b.inUnits power
    if unit ≤ n then power else b.leadingPowerFrom steps (power - 1)

/-- The magnitude of a value rounded to so many digits. -/
def rounded (b : Binary) (count : Nat) : Decimal :=
  if b.significand = 0 then ⟨0, 0⟩
  else
    let power := b.leadingPowerFrom 4 b.powerAbove + 1 - count
    ⟨b.nearestMultiple power, power⟩

end Binary

end Calculator
