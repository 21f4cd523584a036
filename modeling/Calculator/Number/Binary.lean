/-
  Numbers and their exact values.  A number is a double: not a number, an infinity, or a signed
  integer times a power of two.  `Number.view` tells which, and `Binary.toNumber` goes back,
  rounding to the nearest double where the value is none.
-/

namespace Calculator

/-- The numbers of the calculator. -/
abbrev Number := Float

/-- A signed integer times a power of two. -/
structure Binary where
  negative : Bool
  significand : Nat
  exponent : Int
deriving DecidableEq, Repr

namespace Binary

/-- The double nearest to a value, of two equally near ones the even one. -/
def toNumber (b : Binary) : Number :=
  .ofModel <| .pack <| Float.Model.UnpackedFloat.round .binary64
    (if b.negative then .negative else .positive) b.significand b.exponent

/-- Whether a value is an integer. -/
def isWhole (b : Binary) : Bool :=
  0 ≤ b.exponent || b.significand % Nat.pow 2 (-b.exponent).toNat == 0

/-- The integer part of the magnitude of a value. -/
def wholePart (b : Binary) : Nat :=
  b.significand * Nat.pow 2 b.exponent.toNat / Nat.pow 2 (-b.exponent).toNat

end Binary

namespace Number

/-- What a number is. -/
inductive View where
  | nan
  | infinite (negative : Bool)
  | finite (value : Binary)
deriving DecidableEq, Repr

/-- What a number is, and the exact value of a finite one. -/
def view (x : Number) : View :=
  match x.toModel.unpack with
  | .notANumber => .nan
  | .infinity sign => .infinite (sign == .negative)
  | .zero sign => .finite ⟨sign == .negative, 0, 0⟩
  | .finite sign significand exponent _ => .finite ⟨sign == .negative, significand, exponent⟩

/-- The number that is none. -/
def nan : Number := 0.0 / 0.0

end Number

end Calculator
