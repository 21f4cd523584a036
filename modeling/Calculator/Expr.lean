import Calculator.Expr.Operator

/-
  Expressions.  A program is one expression; several statements form a sequence, which unlike a
  block opens no scope.  `Expr.grouped` writes an expression with every operation in parentheses.
-/

namespace Calculator

/-- What a program says. -/
inductive Expr where
  | literal (value : Number)
  | reference (name : String)
  | block (body : List Expr)
  | sequence (body : List Expr)
  | closure (params : List String) (body : Expr)
  | ifThen (test consequent : Expr)
  | ifElse (test consequent alternate : Expr)
  | assign (name : String) (value : Expr)
  | binary (left : Expr) (op : Operator) (right : Expr)
  | random
  | builtin (f : Builtin) (argument : Expr)
  | call (name : String) (arguments : List Expr)
  /-- A place where no expression was put; it has no meaning. -/
  | missing

namespace Expr

/-- Texts with a separator between each two. -/
def joined (separator : List Char) (texts : List (List Char)) : List Char :=
  List.intercalate separator texts

mutual
/-- An expression with every operation in parentheses. -/
def grouped : Expr → List Char
  | literal value => Number.text value
  | reference name => name.toList
  | block body => '{' :: joined [';'] (groupedAll body) ++ ['}']
  | sequence body => joined [';'] (groupedAll body)
  | closure params body =>
    '(' :: joined [',', ' '] (params.map String.toList) ++ ')' :: '=' :: '>' :: body.grouped
  | ifThen test consequent => 'i' :: 'f' :: '(' :: test.grouped ++ ')' :: consequent.grouped
  | ifElse test consequent alternate =>
    'i' :: 'f' :: '(' :: test.grouped ++ ')' :: consequent.grouped ++
      Keyword.elseWord.spelling ++ alternate.grouped
  | assign name value => Keyword.letWord.spelling ++ ' ' :: name.toList ++ '=' :: value.grouped
  | binary left op right => '(' :: left.grouped ++ op.spelling ++ right.grouped ++ [')']
  | random => Keyword.rand.spelling ++ ['(', ')']
  | builtin f argument => f.spelling ++ '(' :: argument.grouped ++ [')']
  | call name arguments => name.toList ++ '(' :: joined [',', ' '] (groupedAll arguments) ++ [')']
  | missing => ['N', 'o', 'n', 'e']
/-- Each of some expressions with every operation in parentheses. -/
def groupedAll : List Expr → List (List Char)
  | [] => []
  | e :: es => e.grouped :: groupedAll es
end

end Expr

end Calculator
