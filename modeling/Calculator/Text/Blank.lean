import Calculator.Text.CharRange

/-
  Blank characters: the white space of Unicode 14 together with the four information separators
  U+001C to U+001F.  The zero width space and the byte order mark are not blank.
-/

namespace Calculator.Text

/-- The code points of the blank characters. -/
def blankRanges : CharRanges := [
  (0x9, 0xd), (0x1c, 0x20), (0x85, 0x85), (0xa0, 0xa0), (0x1680, 0x1680), (0x2000, 0x200a),
  (0x2028, 0x2029), (0x202f, 0x202f), (0x205f, 0x205f), (0x3000, 0x3000)]

/-- Whether a character is blank, and so only keeps tokens apart. -/
def isBlank (c : Char) : Bool := blankRanges.has c.toNat

end Calculator.Text
