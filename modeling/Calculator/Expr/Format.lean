import Calculator.Expr
import Calculator.Limits

/-
  Expressions as programs.  There are three modes: without blanks, with blanks, and with blocks on
  lines of their own.  An operand is put in parentheses when it is an assignment, a condition or a
  closure, which would take in what follows, or an operation of a lower class; a right operand also
  when its class is the same.  A consequent that starts with a minus is put in parentheses, since a
  minus after a closing parenthesis subtracts.  `Expr.formatOnto` puts the text of an expression
  before other text, which makes a chain of operators, however long, a loop.
-/

namespace Calculator

/-- How a program is laid out. -/
inductive Mode where
  | minified | spaced | indented
deriving DecidableEq, Repr

namespace Mode

/-- All modes. -/
def all : List Mode := [minified, spaced, indented]

/-- The name of a mode. -/
def name : Mode → String
  | minified => "minified"
  | spaced => "spaced"
  | indented => "indented"

/-- The mode of a name. -/
def named? (text : List Char) : Option Mode := all.find? fun mode => mode.name.toList == text

/-- The blank between the parts of an expression. -/
def space : Mode → List Char
  | minified => []
  | spaced | indented => [' ']

/-- The indentation of a line. -/
def margin (indent : Nat) : List Char := List.replicate (4 * indent) ' '

/-- What stands between two statements. -/
def separator (mode : Mode) (indent : Nat) : List Char :=
  match mode with
  | indented => ';' :: '\n' :: margin indent
  | minified | spaced => ';' :: mode.space

/-- What stands after the opening brace of a block whose statements have this indentation. -/
def opening (mode : Mode) (indent : Nat) : List Char :=
  match mode with
  | indented => '\n' :: margin indent
  | minified | spaced => mode.space

/-- What stands before the closing brace of a block that stands at this indentation. -/
def closing (mode : Mode) (indent : Nat) : List Char :=
  match mode with
  | indented => '\n' :: margin indent
  | minified | spaced => mode.space

/-- What stands between two items in parentheses. -/
def comma (mode : Mode) : List Char := ',' :: mode.space

end Mode

/-- Why an expression has no text. -/
inductive FormatFault where
  /-- An expression is missing. -/
  | missing
  /-- Expressions are nested too deeply. -/
  | tooDeep
deriving DecidableEq

namespace Expr

/-- Whether an expression takes in what follows it. -/
def isOpenEnded : Expr → Bool
  | assign .. | ifThen .. | ifElse .. | closure .. => true
  | _ => false

/-- Whether an expression is an operation of a class below the given one. -/
def isBelow (least : Nat) : Expr → Bool
  | binary _ op _ => op.precedence < least
  | _ => false

/-- Whether an operand of an operator that takes at least the given class needs parentheses. -/
def needsParens (least : Nat) (e : Expr) : Bool := e.isOpenEnded || e.isBelow least

/-- Puts a text in parentheses if need be, followed by other text. -/
def parenthesized (needed : Bool) (text : List Char → List Char) (after : List Char) : List Char :=
  if needed then '(' :: text (')' :: after) else text after

/-- A consequent as it is or, when it starts with a minus, in parentheses. -/
def guarded (text : List Char) : List Char :=
  if text.head? = some '-' then '(' :: text ++ [')'] else text

mutual
/-- The text of an expression at an indentation, followed by other text. -/
def formatOnto (mode : Mode) (indent : Nat) : Expr → List Char → List Char
  | literal value, after => Number.plain value ++ after
  | reference name, after => name.toList ++ after
  | block [], after => '{' :: '}' :: after
  | block (e :: es), after =>
    '{' :: mode.opening (indent + 1) ++ e.formatOnto mode (indent + 1)
      (formatAllOnto mode (indent + 1) (mode.separator (indent + 1)) es
        (mode.closing indent ++ '}' :: after))
  | sequence [], after => after
  | sequence (e :: es), after =>
    e.formatOnto mode indent (formatAllOnto mode indent (mode.separator indent) es after)
  | closure params body, after =>
    '(' :: List.intercalate mode.comma (params.map String.toList) ++
      ')' :: mode.space ++ '=' :: '>' :: mode.space ++ body.formatOnto mode indent after
  | ifThen test consequent, after =>
    'i' :: 'f' :: mode.space ++ '(' :: test.formatOnto mode indent
      (')' :: mode.space ++ guarded (consequent.formatOnto mode indent []) ++ after)
  | ifElse test consequent alternate, after =>
    'i' :: 'f' :: mode.space ++ '(' :: test.formatOnto mode indent
      (')' :: mode.space ++
        guarded (parenthesized (consequent.needsParens 0) (consequent.formatOnto mode indent) []) ++
        ' ' :: Keyword.elseWord.spelling ++ ' ' :: alternate.formatOnto mode indent after)
  | assign name value, after =>
    Keyword.letWord.spelling ++ ' ' :: name.toList ++ mode.space ++ '=' :: mode.space ++
      value.formatOnto mode indent after
  | binary left op right, after =>
    parenthesized (left.needsParens op.precedence) (left.formatOnto mode indent)
      (mode.space ++ op.spelling ++ mode.space ++
        parenthesized (right.needsParens (op.precedence + 1)) (right.formatOnto mode indent) after)
  | random, after => Keyword.rand.spelling ++ '(' :: ')' :: after
  | builtin f argument, after =>
    f.spelling ++ '(' :: argument.formatOnto mode indent (')' :: after)
  | call name [], after => name.toList ++ '(' :: ')' :: after
  | call name (e :: es), after =>
    name.toList ++ '(' :: e.formatOnto mode indent
      (formatAllOnto mode indent mode.comma es (')' :: after))
  | missing, after => after
/-- The texts of some expressions, each after a separator, followed by other text. -/
def formatAllOnto (mode : Mode) (indent : Nat) (separator : List Char) :
    List Expr → List Char → List Char
  | [], after => after
  | e :: es, after =>
    separator ++ e.formatOnto mode indent (formatAllOnto mode indent separator es after)
end

/-- The text of an expression. -/
def format (mode : Mode) (indent : Nat) (e : Expr) : List Char := e.formatOnto mode indent []

mutual
/-- The first reason why an expression has no text, when it may nest so deep.  A left operand that
needs no parentheses does not nest; a consequent is written before its condition. -/
def formatFault? : Nat → Expr → Option FormatFault
  | 0, _ => some .tooDeep
  | _, missing => some .missing
  | depth + 1, block body => formatFaultAll? depth body
  | depth + 1, sequence body => formatFaultAll? depth body
  | depth + 1, closure _ body => formatFault? depth body
  | depth + 1, ifThen test consequent => (formatFault? depth consequent).or (formatFault? depth test)
  | depth + 1, ifElse test consequent alternate =>
    ((formatFault? depth consequent).or (formatFault? depth test)).or (formatFault? depth alternate)
  | depth + 1, assign _ value => formatFault? depth value
  | depth + 1, binary left op right =>
    (formatFault? (if left.needsParens op.precedence then depth else depth + 1) left).or
      (formatFault? depth right)
  | depth + 1, builtin _ argument => formatFault? depth argument
  | depth + 1, call _ arguments => formatFaultAll? depth arguments
  | _, _ => none
/-- The first reason why some expressions have no text. -/
def formatFaultAll? : Nat → List Expr → Option FormatFault
  | _, [] => none
  | depth, e :: es => (formatFault? depth e).or (formatFaultAll? depth es)
end

/-- The text of an expression that has one. -/
def toText [Limits] (mode : Mode) (e : Expr) : Except FormatFault (List Char) :=
  match e.formatFault? Limits.text with
  | some fault => .error fault
  | none => .ok (e.format mode 0)

end Expr

end Calculator
