import Calculator.Number.Decimal

/-
  Numbers as text.  A layout says which decimals are written positionally and whether a whole
  number keeps a point.  Three texts are in use: `Number.text`, the fewest digits that read back;
  `Number.brief`, six digits; and `Number.plain`, without exponent, so that the text is a numeral
  of the language again whenever the number is one.
-/

namespace Calculator

/-- How a decimal is laid out. -/
structure Layout where
  /-- The least power of ten of a leading digit that is written positionally. -/
  least : Int
  /-- The least greater one that is not. -/
  limit : Int
  /-- Whether a whole number shows a point and a zero. -/
  showsPoint : Bool

namespace Layout

/-- Digits without the zeros at their end. -/
def trimmed (digits : List Char) : List Char :=
  (digits.reverse.dropWhile (· == '0')).reverse

/-- Digits in full, the point after the first `point` of them. -/
def positional (digits : List Char) (point : Int) : List Char :=
  if point ≤ 0 then '0' :: '.' :: List.replicate (-point).toNat '0' ++ digits
  else if digits.length ≤ point.toNat then
    digits ++ List.replicate (point.toNat - digits.length) '0'
  else digits.take point.toNat ++ '.' :: digits.drop point.toNat

/-- Digits with the point after the first, and a power of ten of at least two digits. -/
def scientific (digits : List Char) (power : Int) : List Char :=
  let tail := digits.drop 1
  let magnitude := Nat.toDigits 10 power.natAbs
  digits.take 1 ++ (if tail.isEmpty then [] else '.' :: tail) ++
    'e' :: (if power < 0 then '-' else '+') ::
      List.replicate (2 - magnitude.length) '0' ++ magnitude

/-- The text of a decimal that is not negative. -/
def write (l : Layout) (d : Decimal) : List Char :=
  if d.digits = 0 then '0' :: if l.showsPoint then ['.', '0'] else []
  else
    let digits := Nat.toDigits 10 d.digits
    let point := digits.length + d.exponent
    let digits := trimmed digits
    if l.least < point && point ≤ l.limit then
      positional digits point ++
        if l.showsPoint && digits.length ≤ point then ['.', '0'] else []
    else scientific digits (point - 1)

end Layout

namespace Number

/-- A magnitude with its sign. -/
def signed (negative : Bool) (magnitude : List Char) : List Char :=
  if negative then '-' :: magnitude else magnitude

/-- A number as text, given the text of a finite magnitude. -/
def textWith (finite : Binary → List Char) (x : Number) : List Char :=
  match view x with
  | .nan => ['n', 'a', 'n']
  | .infinite negative => signed negative ['i', 'n', 'f']
  | .finite b => signed b.negative (finite b)

/-- The fewest digits that read back: positional from 0.0001 and below 10^16, with a point. -/
def text (x : Number) : List Char :=
  textWith (fun b => (Layout.mk (-4) 16 true).write b.shortest) x

/-- Six digits: positional from 0.0001 and below 10^6, without point where whole. -/
def brief (x : Number) : List Char :=
  textWith (fun b => (Layout.mk (-4) 6 false).write (b.rounded 6)) x

/-- The magnitude written for an infinity: a numeral too great for any double. -/
def overflowing : List Char := '1' :: List.replicate 309 '0'

/-- A number without exponent: a whole number in full, an infinity as a numeral that overflows,
and any other with the fewest digits that read back. -/
def plain (x : Number) : List Char :=
  match view x with
  | .nan => ['n', 'a', 'n']
  | .infinite negative => signed negative overflowing
  | .finite b =>
    if b.isWhole then
      signed (b.negative && b.significand != 0) (Nat.toDigits 10 b.wholePart)
    else
      let d := b.shortest
      let digits := Nat.toDigits 10 d.digits
      signed b.negative (Layout.positional digits (digits.length + d.exponent))

end Number

end Calculator
