/-
  Lines of a text to be shown.  A line ends at a line feed, a carriage return, both together, a
  vertical tab, a form feed, one of the separators U+001C to U+001E, the next line character, or
  the line or paragraph separator.  A text that ends with one of these has no empty last line.
-/

namespace Calculator.Text

/-- Whether a character ends a line that is shown. -/
def endsLine (c : Char) : Bool :=
  ['\n', '\r', '\x0b', '\x0c', '\x1c', '\x1d', '\x1e', '\u0085', '\u2028', '\u2029'].contains c

/-- The lines of a text, given what has been read of the first, last character first. -/
def linesFrom : List Char → List Char → List (List Char)
  | [], [] => []
  | [], line => [line.reverse]
  | '\r' :: '\n' :: rest, line => line.reverse :: linesFrom rest []
  | c :: rest, line =>
    if endsLine c then line.reverse :: linesFrom rest [] else linesFrom rest (c :: line)

/-- The lines of a text, without what ends them. -/
def lines (cs : List Char) : List (List Char) := linesFrom cs []

end Calculator.Text
