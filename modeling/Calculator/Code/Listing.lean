import Calculator.Code

/-
  Listings of code.  Each instruction takes a line with its number, three columns wide, and its
  text; code inside an instruction follows it, four columns further in, and the two codes of a
  branch stand under headings, eight columns further in.
-/

namespace Calculator

namespace Listing

/-- The blanks before a line. -/
def padding (depth : Nat) : List Char := List.replicate (4 * depth) ' '

/-- A line of a listing: the number of an instruction and its text. -/
def line (depth number : Nat) (i : Instr) : List Char :=
  let digits := Nat.toDigits 10 number
  padding depth ++ List.replicate (3 - digits.length) ' ' ++ digits ++ ' ' :: i.text

mutual
/-- The lines of some code from a number on, followed by other lines. -/
def linesOnto (depth number : Nat) : List Instr → List (List Char) → List (List Char)
  | [], after => after
  | i :: code, after =>
    line depth number i :: insideOnto depth i (linesOnto depth (number + 1) code after)
/-- The lines of the code inside an instruction, followed by other lines. -/
def insideOnto (depth : Nat) : Instr → List (List Char) → List (List Char)
  | .pushRoutine body, after => linesOnto (depth + 1) 0 body after
  | .skipUnless body, after => linesOnto (depth + 1) 0 body after
  | .branch consequent alternate, after =>
    (padding (depth + 1) ++ "then:".toList) :: linesOnto (depth + 2) 0 consequent
      ((padding (depth + 1) ++ "else:".toList) :: linesOnto (depth + 2) 0 alternate after)
  | _, after => after
end

/-- The lines of some code. -/
def lines (depth : Nat) (code : List Instr) : List (List Char) := linesOnto depth 0 code []

mutual
/-- The place of the first comparison in some code that does not exist. -/
def misplaced? : List Instr → Option Int
  | [] => none
  | i :: code => (i.misplaced?.or (misplacedInside? i)).or (misplaced? code)
/-- The place of the first comparison inside an instruction that does not exist. -/
def misplacedInside? : Instr → Option Int
  | .pushRoutine body => misplaced? body
  | .skipUnless body => misplaced? body
  | .branch consequent alternate => (misplaced? consequent).or (misplaced? alternate)
  | _ => none
end

end Listing

/-- The listing of some code. -/
def listing (depth : Nat) (code : List Instr) : List Char :=
  List.intercalate ['\n'] (Listing.lines depth code)

end Calculator
