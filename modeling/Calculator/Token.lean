import Calculator.Number.Arithmetic
import Calculator.Number.Layout
import Calculator.Text.Location
import Calculator.Text.Quoted

/-
  Tokens.  A lexeme is a keyword, a symbol, a number or an identifier; a token is a lexeme with the
  places where it starts and stops.  Keywords and symbols each have one spelling, given here, and
  perhaps aliases, which the scanner knows; two lexemes are the same when their kinds and values
  are, numbers being compared as numbers.
-/

namespace Calculator

/-- The reserved words. -/
inductive Keyword where
  | letWord | ifWord | elseWord
  | sin | cos | sqrt | log | rand | round | floor
  | pi | e
deriving DecidableEq, Repr

namespace Keyword

/-- All reserved words, in the order in which they are tried. -/
def all : List Keyword :=
  [letWord, ifWord, elseWord, sin, cos, sqrt, log, rand, round, floor, pi, e]

/-- How a reserved word is written. -/
def spelling : Keyword → List Char
  | letWord => ['l', 'e', 't']
  | ifWord => ['i', 'f']
  | elseWord => ['e', 'l', 's', 'e']
  | sin => ['s', 'i', 'n']
  | cos => ['c', 'o', 's']
  | sqrt => ['s', 'q', 'r', 't']
  | log => ['l', 'o', 'g']
  | rand => ['r', 'a', 'n', 'd']
  | round => ['r', 'o', 'u', 'n', 'd']
  | floor => ['f', 'l', 'o', 'o', 'r']
  | pi => ['p', 'i']
  | e => ['e']

/-- The name of the kind of token that a reserved word makes. -/
def kindName : Keyword → String
  | letWord => "LET"
  | ifWord => "IF"
  | elseWord => "ELSE"
  | sin => "SIN"
  | cos => "COS"
  | sqrt => "SQRT"
  | log => "LOG"
  | rand => "RAND"
  | round => "ROUND"
  | floor => "FLOOR"
  | pi => "PI"
  | e => "E"

end Keyword

/-- The symbols. -/
inductive Symbol where
  | equal | notEqual | lessEqual | greaterEqual | arrow
  | openParen | closeParen | openBrace | closeBrace
  | comma | semicolon | assign
  | add | sub | mul | div | mod | pow
  | less | greater
deriving DecidableEq, Repr

namespace Symbol

/-- All symbols, the longer ones first, in the order in which they are tried. -/
def all : List Symbol :=
  [equal, notEqual, lessEqual, greaterEqual, arrow,
    openParen, closeParen, openBrace, closeBrace, comma, semicolon, assign,
    add, sub, mul, div, mod, pow, less, greater]

/-- How a symbol is written. -/
def spelling : Symbol → List Char
  | equal => ['=', '=']
  | notEqual => ['!', '=']
  | lessEqual => ['<', '=']
  | greaterEqual => ['>', '=']
  | arrow => ['=', '>']
  | openParen => ['(']
  | closeParen => [')']
  | openBrace => ['{']
  | closeBrace => ['}']
  | comma => [',']
  | semicolon => [';']
  | assign => ['=']
  | add => ['+']
  | sub => ['-']
  | mul => ['*']
  | div => ['/']
  | mod => ['%']
  | pow => ['^']
  | less => ['<']
  | greater => ['>']

/-- The name of the kind of token that a symbol makes. -/
def kindName : Symbol → String
  | equal => "EQUAL"
  | notEqual => "NOT_EQUAL"
  | lessEqual => "LESS_EQUAL"
  | greaterEqual => "GREATER_EQUAL"
  | arrow => "ARROW"
  | openParen => "LPAREN"
  | closeParen => "RPAREN"
  | openBrace => "LBRACE"
  | closeBrace => "RBRACE"
  | comma => "COMMA"
  | semicolon => "SEMI"
  | assign => "ASSIGN"
  | add => "ADD"
  | sub => "SUB"
  | mul => "MUL"
  | div => "DIV"
  | mod => "MOD"
  | pow => "POW"
  | less => "LESS"
  | greater => "GREATER"

/-- The bracket that closes an opening one. -/
def closer? : Symbol → Option Symbol
  | openParen => some closeParen
  | openBrace => some closeBrace
  | _ => none

end Symbol

/-- What a token says. -/
inductive Lexeme where
  | keyword (word : Keyword)
  | symbol (sign : Symbol)
  | number (value : Number)
  | identifier (name : String)
deriving DecidableEq

namespace Lexeme

/-- The name of the kind of a lexeme. -/
def kindName : Lexeme → String
  | keyword word => word.kindName
  | symbol sign => sign.kindName
  | number _ => "NUMBER"
  | identifier _ => "ID"

/-- A lexeme as messages show it: numbers in six digits. -/
def text : Lexeme → List Char
  | keyword word => word.spelling
  | symbol sign => sign.spelling
  | number value => Number.brief value
  | identifier name => name.toList

/-- The value of a lexeme: numbers in full and all else quoted. -/
def valueText : Lexeme → List Char
  | number value => Number.text value
  | other => Text.quoted other.text

/-- Whether two lexemes are of one kind and have equal values; zeros are equal whatever their
signs. -/
def same : Lexeme → Lexeme → Bool
  | keyword a, keyword b => a == b
  | symbol a, symbol b => a == b
  | number a, number b => a == b
  | identifier a, identifier b => a == b
  | _, _ => false

/-- Whether a lexeme ends an operand, so that a minus after it subtracts. -/
def endsOperand : Lexeme → Bool
  | number _ | identifier _ => true
  | keyword word => word == .pi || word == .e
  | symbol sign => sign == .closeParen || sign == .closeBrace

/-- The number that a lexeme stands for by itself. -/
def literal? : Lexeme → Option Number
  | number value => some value
  | keyword .pi => some Number.pi
  | keyword .e => some Number.euler
  | _ => none

end Lexeme

/-- A lexeme and where it stands. -/
structure Token where
  lexeme : Lexeme
  start : Location
  stop : Location
deriving DecidableEq

namespace Token

/-- Everything about a token as text. -/
def text (t : Token) : List Char :=
  "Token(TokenType.".toList ++ t.lexeme.kindName.toList ++ ", ".toList ++ t.lexeme.valueText ++
    ", position=".toList ++ t.start.text ++ " to ".toList ++ t.stop.text ++ [')']

end Token

end Calculator
