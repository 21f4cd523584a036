import Calculator.Number.Binary

/-
  Arithmetic of the calculator.  Sum, difference, product, quotient and power are those of doubles
  and never fail.  Remainder and floor are computed on exact values, and rounding goes up or down from
  the exact integer part.  Angles are in degrees, logarithms are decimal.
-/

namespace Calculator.Number

/-- What is left of `x` after taking away as many whole `y` as it holds; it has the sign of `x`. -/
def remainder (x y : Number) : Number :=
  match view x, view y with
  | .finite a, .finite b =>
    if b.significand = 0 then nan
    else
      let e := min a.exponent b.exponent
      let unit := b.significand * Nat.pow 2 (b.exponent - e).toNat
      let significand := a.significand * Nat.pow 2 (a.exponent - e).toNat % unit
      { a with significand, exponent := e }.toNumber
  | .finite _, .infinite _ => x
  | _, _ => nan

/-- The greatest integer that is not above `x`; an integer zero has no sign. -/
def floor (x : Number) : Number :=
  match view x with
  | .finite b =>
    let n := if b.negative && !b.isWhole then b.wholePart + 1 else b.wholePart
    Binary.toNumber ⟨b.negative && n != 0, n, 0⟩
  | _ => x

/-- How far the magnitude of `x` is above a natural number. -/
def above (x : Number) (whole : Nat) : Number := x.abs - Binary.toNumber ⟨false, whole, 0⟩

/-- The integer nearest to `x`, of two equally near ones the one farther from zero; it has the sign
of `x`. -/
def round (x : Number) : Number :=
  match view x with
  | .finite b =>
    let whole := if 0.5 ≤ x.above b.wholePart then b.wholePart + 1 else b.wholePart
    Binary.toNumber ⟨b.negative, whole, 0⟩
  | _ => x

/-- A half turn in radians. -/
def pi : Number := 3.141592653589793

/-- The base of natural logarithms. -/
def euler : Number := 2.718281828459045

/-- An angle in degrees as radians. -/
def radians (x : Number) : Number := x * (pi / 180)

/-- The sine of an angle in degrees; that of an infinite angle is no number. -/
def sine (x : Number) : Number :=
  if x.isFinite then Float.sin (radians x) else nan

/-- The cosine of an angle in degrees; that of an infinite angle is no number. -/
def cosine (x : Number) : Number :=
  if x.isFinite then Float.cos (radians x) else nan

/-- The decimal logarithm. -/
def logarithm (x : Number) : Number := Float.log10 x

/-- The power `x` to the `y`. -/
def power (x y : Number) : Number := Float.pow x y

end Calculator.Number
