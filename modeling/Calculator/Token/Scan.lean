import Calculator.Number.Numeral
import Calculator.Text.Alphanumeric
import Calculator.Text.Blank
import Calculator.Text.Cursor
import Calculator.Token

/-
  From text to tokens.  At each place the scanner skips blanks and takes the first of these that
  matches: a reserved word, a numeral, a symbol, a name.  A minus belongs to a numeral unless the
  token before it ends an operand.  Brackets that are open at the end of the text are closed there,
  the innermost first; a closing bracket that does not fit the innermost open one is left as it is.
-/

namespace Calculator

/-- A text that no token starts with. -/
structure ScanFault where
  rest : List Char
  location : Location
deriving DecidableEq

namespace Scan

/-- Reserved words and their aliases. -/
def words : List (Pattern × Lexeme) :=
  Keyword.all.map (fun word => (.word word.spelling, .keyword word)) ++
    [(.word ['E'], .keyword .e), (.word ['m', 'o', 'd'], .symbol .mod)]

/-- Symbols and their aliases. -/
def symbols : List (Pattern × Lexeme) :=
  Symbol.all.map (fun sign => (.literal sign.spelling, .symbol sign)) ++
    [(.literal ['π'], .keyword .pi), (.literal ['𝜋'], .keyword .pi),
      (.literal ['×'], .symbol .mul), (.literal ['÷'], .symbol .div), (.literal ['−'], .symbol .sub)]

/-- The lexeme of the first pattern that matches. -/
def first? (c : Cursor) : List (Pattern × Lexeme) → Option (Lexeme × Cursor)
  | [] => none
  | (pattern, lexeme) :: others =>
    match c.nibble? pattern with
    | some (_, next) => some (lexeme, next)
    | none => first? c others

/-- The lexeme at the cursor, and the cursor after it. -/
def lexeme? (signed : Bool) (c : Cursor) : Option (Lexeme × Cursor) :=
  (first? c words).or <|
  ((c.nibble? (.numeral signed)).map fun (cs, next) => (.number (Numeral.read cs), next)).or <|
  (first? c symbols).or <|
  (c.nibble? (.run Text.isNameChar)).map fun (cs, next) => (.identifier (String.ofList cs), next)

/-- Whether a minus may belong to a numeral after this lexeme. -/
def allowsSign (previous : Option Lexeme) : Bool := !previous.any Lexeme.endsOperand

/-- At most so many tokens that the text holds, read on from a place, and what stopped the scanner
if not the end of the text. -/
def tokensFrom (previous : Option Lexeme) (place : Location) (c : Cursor) :
    Nat → List Token × Option ScanFault
  | 0 => ([], none)
  | count + 1 =>
    let c := c.chomp (.run Text.isBlank)
    if c.isEmpty then ([], none)
    else
      let start := place.forward c.text c.offset
      match lexeme? (allowsSign previous) c with
      | none => ([], some ⟨c.rest, start⟩)
      | some (lexeme, next) =>
        let stop := start.forward c.text next.offset
        let (tokens, fault) := tokensFrom (some lexeme) stop next count
        (⟨lexeme, start, stop⟩ :: tokens, fault)

/-- The tokens that a text holds.  Each takes at least one character. -/
def tokens (c : Cursor) : List Token × Option ScanFault :=
  tokensFrom none c.location c (c.text.size - c.offset)

/-- The closing brackets that are due after a lexeme, the innermost first. -/
def due (closers : List Symbol) (lexeme : Lexeme) : List Symbol :=
  match lexeme with
  | .symbol sign =>
    match sign.closer? with
    | some closer => closer :: closers
    | none => if closers.head? = some sign then closers.tail else closers
  | _ => closers

/-- The closing brackets that are due after some lexemes, the innermost first. -/
def closers (lexemes : List Lexeme) : List Symbol := lexemes.foldl due []

/-- The tokens of the closing brackets that a text lacks after some tokens; they stand at its
end. -/
def missing (text : Array Char) (tokens : List Token) : List Token :=
  let place := Location.ofOffset text text.size
  (closers (tokens.map (·.lexeme))).map fun closer => ⟨.symbol closer, place, place⟩

end Scan

/-- What a text was read as. -/
structure Scan where
  /-- The tokens that the text holds. -/
  written : List Token
  /-- The closing brackets that it lacks. -/
  supplied : List Token
  /-- What could not be read. -/
  fault : Option ScanFault

namespace Scan

/-- Reads the text after a cursor. -/
def ofCursor (c : Cursor) : Scan :=
  match tokens c with
  | (written, none) => ⟨written, missing c.text written, none⟩
  | (written, some fault) => ⟨written, [], some fault⟩

/-- All tokens, in order. -/
def all (s : Scan) : List Token := s.written ++ s.supplied

end Scan

/-- The tokens of a text, or why there are none. -/
def tokenize (c : Cursor) : Except ScanFault (List Token) :=
  let scan := Scan.ofCursor c
  match scan.fault with
  | some fault => .error fault
  | none => .ok scan.all

end Calculator
