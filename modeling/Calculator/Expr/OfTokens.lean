import Calculator.Expr.Chain
import Calculator.Limits

/-
  From tokens to expressions.  An expression is a chain of operands; an operand is told by its
  first token, except that a parenthesis opens a closure when names, a closing parenthesis and an
  arrow follow it, and a grouped expression otherwise.  `expression depth` reads expressions that
  nest at most `depth` deep; each loop over items is counted by the tokens that are left, since an
  item takes at least one.
-/

namespace Calculator

/-- The tokens of a program while it is read: the last one read and those left. -/
structure TokenStream where
  previous : Option Token
  rest : List Token

/-- A token that the grammar demands. -/
inductive Demand where
  | symbol (sign : Symbol)
  | name
deriving DecidableEq

/-- Why tokens are no program. -/
inductive ParseFault where
  /-- A token, or the end, where none of its kind can stand. -/
  | unexpected (found : Option Token)
  /-- A token, or the end, in the place of a demanded one. -/
  | demanded (demand : Demand) (found : Option Token)
  /-- Tokens after the program. -/
  | remaining (first : Token) (others : List Token)
  /-- No statement at all. -/
  | emptyProgram
  /-- A name right after an operand that is no literal. -/
  | ambiguous (left right : Token)
  /-- An expression nested too deeply, and the token, or the end, where it starts. -/
  | tooDeep (found : Option Token)
deriving DecidableEq

/-- What reading gives: nothing when no expression starts here, and then nothing is read. -/
abbrev ExprReader := TokenStream → Except ParseFault (Option (Expr × TokenStream))

namespace TokenStream

/-- All tokens of a program, none of them read. -/
def ofTokens (tokens : List Token) : TokenStream := ⟨none, tokens⟩

/-- The next token. -/
def current? (s : TokenStream) : Option Token := s.rest.head?

/-- Reads a symbol if it is next. -/
def take? (sign : Symbol) (s : TokenStream) : Option TokenStream :=
  match s.rest with
  | token :: rest => if token.lexeme = .symbol sign then some ⟨some token, rest⟩ else none
  | [] => none

/-- Reads a reserved word if it is next. -/
def takeWord? (word : Keyword) (s : TokenStream) : Option TokenStream :=
  match s.rest with
  | token :: rest => if token.lexeme = .keyword word then some ⟨some token, rest⟩ else none
  | [] => none

/-- Reads a symbol that has to be next. -/
def demand (sign : Symbol) (s : TokenStream) : Except ParseFault TokenStream :=
  match s.take? sign with
  | some next => .ok next
  | none => .error (.demanded (.symbol sign) s.current?)

/-- Reads a name that has to be next. -/
def demandName (s : TokenStream) : Except ParseFault (String × TokenStream) :=
  match s.rest with
  | token :: rest =>
    match token.lexeme with
    | .identifier name => .ok (name, ⟨some token, rest⟩)
    | _ => .error (.demanded .name (some token))
  | [] => .error (.demanded .name none)

/-- Reads an expression that has to be next. -/
def demandExpr (read : ExprReader) (s : TokenStream) : Except ParseFault (Expr × TokenStream) := do
  match ← read s with
  | some found => return found
  | none => throw (.unexpected s.current?)

/-- Reads at most so many expressions with a separator between each two, up to the closing
bracket; a separator may stand before the bracket. -/
def items (read : ExprReader) (separator closer : Symbol) :
    Nat → TokenStream → Except ParseFault (List Expr × TokenStream)
  | 0, s => if (s.take? closer).isSome then return ([], s) else throw (.unexpected s.current?)
  | count + 1, s => do
    if (s.take? closer).isSome then return ([], s)
    let (e, s) ← s.demandExpr read
    match s.take? separator with
    | none => return ([e], s)
    | some s =>
      let (es, s) ← items read separator closer count s
      return (e :: es, s)

/-- Reads the items of a bracket that has been opened, and its closing bracket. -/
def bracketed (read : ExprReader) (separator closer : Symbol) (s : TokenStream) :
    Except ParseFault (List Expr × TokenStream) := do
  let (es, s) ← s.items read separator closer s.rest.length
  let s ← s.demand closer
  return (es, s)

/-- Reads names with commas between them; a comma may follow the last. -/
def names : List Token → List String × List Token
  | ⟨.identifier name, _, _⟩ :: ⟨.symbol .comma, _, _⟩ :: rest =>
    let (others, rest) := names rest
    (name :: others, rest)
  | ⟨.identifier name, _, _⟩ :: rest => ([name], rest)
  | rest => ([], rest)

/-- Reads the parameters of a closure after its opening parenthesis, up to the arrow; fails when
the parenthesis opens no closure. -/
def closureHead? (s : TokenStream) : Option (List String × TokenStream) :=
  let (params, rest) := names s.rest
  match rest with
  | ⟨.symbol .closeParen, _, _⟩ :: ⟨.symbol .arrow, start, stop⟩ :: rest =>
    some (params, ⟨some ⟨.symbol .arrow, start, stop⟩, rest⟩)
  | _ => none

/-- Reads what an opening parenthesis starts. -/
def parenthesis (read : ExprReader) (s : TokenStream) : Except ParseFault (Expr × TokenStream) := do
  match s.closureHead? with
  | some (params, s) =>
    let (body, s) ← s.demandExpr read
    return (.closure params body, s)
  | none =>
    let (e, s) ← s.demandExpr read
    let s ← s.demand .closeParen
    return (e, s)

/-- Reads what follows a name: its arguments, if it is called. -/
def named (read : ExprReader) (name : String) (s : TokenStream) :
    Except ParseFault (Expr × TokenStream) := do
  match s.take? .openParen with
  | none => return (.reference name, s)
  | some s =>
    let (arguments, s) ← s.bracketed read .comma .closeParen
    return (.call name arguments, s)

/-- Reads an assignment after its first word. -/
def assignment (read : ExprReader) (s : TokenStream) : Except ParseFault (Expr × TokenStream) := do
  let (name, s) ← s.demandName
  let s ← s.demand .assign
  let (value, s) ← s.demandExpr read
  return (.assign name value, s)

/-- Reads a condition after its first word. -/
def conditional (read : ExprReader) (s : TokenStream) :
    Except ParseFault (Expr × TokenStream) := do
  let s ← s.demand .openParen
  let (test, s) ← s.demandExpr read
  let s ← s.demand .closeParen
  let (consequent, s) ← s.demandExpr read
  match s.takeWord? .elseWord with
  | none => return (.ifThen test consequent, s)
  | some s =>
    let (alternate, s) ← s.demandExpr read
    return (.ifElse test consequent alternate, s)

/-- Reads the parentheses of a function without operand. -/
def random (s : TokenStream) : Except ParseFault (Expr × TokenStream) := do
  let s ← s.demand .openParen
  let s ← s.demand .closeParen
  return (.random, s)

/-- Reads the operand of a function. -/
def operand (read : ExprReader) (f : Builtin) (s : TokenStream) :
    Except ParseFault (Expr × TokenStream) := do
  let s ← s.demand .openParen
  let (argument, s) ← s.demandExpr read
  let s ← s.demand .closeParen
  return (.builtin f argument, s)

/-- Reads an operand of a chain, given how to read what is nested in it. -/
def primary (read : ExprReader) : ExprReader := fun s =>
  match s.rest with
  | [] => .ok none
  | token :: rest =>
    let next : TokenStream := ⟨some token, rest⟩
    match token.lexeme with
    | .symbol .openBrace => do
      let (body, s) ← next.bracketed read .semicolon .closeBrace
      return some (.block body, s)
    | .symbol .openParen => some <$> next.parenthesis read
    | .symbol _ => .ok none
    | .keyword .letWord => some <$> next.assignment read
    | .keyword .ifWord => some <$> next.conditional read
    | .keyword .rand => some <$> next.random
    | .keyword word =>
      match Builtin.ofKeyword? word with
      | some f => some <$> next.operand read f
      | none => .ok ((Lexeme.keyword word).literal?.map fun x => (.literal x, next))
    | .number x => .ok (some (.literal x, next))
    | .identifier name => some <$> next.named read name

/-- Reads an operator of a chain.  A product needs no sign before a parenthesis, nor between a
literal and a name; a name after any other operand is ambiguous. -/
def operator? (s : TokenStream) : Except ParseFault (Option (Operator × TokenStream)) :=
  match s.rest with
  | [] => .ok none
  | token :: rest =>
    match token.lexeme with
    | .symbol .openParen => .ok (some (.juxtaposed, s))
    | .symbol sign => .ok ((Operator.ofSymbol? sign).map (·, ⟨some token, rest⟩))
    | .identifier _ =>
      match s.previous with
      | none => .ok none
      | some left =>
        if left.lexeme.literal?.isSome then .ok (some (.juxtaposed, s))
        else .error (.ambiguous left token)
    | _ => .ok none

/-- Reads at most so many operators and operands of a chain. -/
def chainTail (read : ExprReader) :
    Nat → TokenStream → Except ParseFault (List (Operator × Expr) × TokenStream)
  | 0, s => .ok ([], s)
  | count + 1, s => do
    match ← s.operator? with
    | none => return ([], s)
    | some (op, s) =>
      let (e, s) ← s.demandExpr read
      let (tail, s) ← chainTail read count s
      return ((op, e) :: tail, s)

/-- Reads a chain, given how to read its operands. -/
def chain (read : ExprReader) : ExprReader := fun s => do
  match ← read s with
  | none => return none
  | some (head, s) =>
    let (tail, s) ← s.chainTail read s.rest.length
    return some (Chain.toExpr ⟨head, tail⟩, s)

/-- Reads an expression that nests at most so deep. -/
def expression : Nat → ExprReader
  | 0 => fun s => .error (.tooDeep s.current?)
  | depth + 1 => chain (primary (expression depth))

/-- Reads at most so many statements with semicolons between them; one may follow the last. -/
def statements (read : ExprReader) :
    Nat → TokenStream → Except ParseFault (List Expr × TokenStream)
  | 0, s => .ok ([], s)
  | count + 1, s => do
    match ← read s with
    | none => return ([], s)
    | some (e, s) =>
      match s.take? .semicolon with
      | none => return ([e], s)
      | some s =>
        let (es, s) ← statements read count s
        return (e :: es, s)

end TokenStream

namespace Expr

/-- The program of some statements. -/
def ofStatements : List Expr → Except ParseFault Expr
  | [] => .error .emptyProgram
  | [e] => .ok e
  | es => .ok (.sequence es)

/-- The statements that tokens stand for, nested at most so deep. -/
def statementsWithin (depth : Nat) (tokens : List Token) : Except ParseFault (List Expr) := do
  let (es, s) ← (TokenStream.ofTokens tokens).statements (TokenStream.expression depth) tokens.length
  match s.rest with
  | [] => return es
  | first :: others => throw (.remaining first others)

/-- The program that tokens stand for. -/
def ofTokens [Limits] (tokens : List Token) : Except ParseFault Expr := do
  ofStatements (← statementsWithin Limits.read tokens)

/-- How many statements a program has. -/
def statementCount : Expr → Nat
  | sequence body => body.length
  | _ => 1

end Expr

end Calculator
