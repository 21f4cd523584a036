import Calculator.Proofs.Expr.Grammar

/-
  The yield of an expression: what it is written with, in order, but for brackets, commas and
  semicolons.  Names, parameters, reserved words, operators that have a sign, `=` and `=>` stand for
  themselves, and a literal for its value.  The yield of a program is that of its tokens
  (`yield_ofStatements`), so reading drops, doubles and moves nothing, whatever was tried on the way.
-/

namespace Calculator

/-- What a lexeme adds to the yield: brackets and separators nothing, a literal its value. -/
def Lexeme.yield? : Lexeme → Option Lexeme
  | symbol .openParen | symbol .closeParen | symbol .openBrace | symbol .closeBrace
  | symbol .comma | symbol .semicolon => none
  | l => some ((l.literal?.map number).getD l)

theorem Lexeme.yield?_literal {l : Lexeme} {x : Number} (h : l.literal? = some x) :
    l.yield? = some (number x) := by
  cases l with
  | number value =>
    cases h
    rfl
  | keyword word => cases word <;> cases h <;> rfl
  | symbol sign => cases h
  | identifier name => cases h

/-- The yield of some lexemes. -/
def yieldOf (ls : List Lexeme) : List Lexeme := ls.filterMap Lexeme.yield?

@[simp] theorem yieldOf_nil : yieldOf [] = [] := rfl

@[simp] theorem yieldOf_cons (l : Lexeme) (ls : List Lexeme) :
    yieldOf (l :: ls) = l.yield?.toList ++ yieldOf ls := by
  unfold yieldOf
  cases h : l.yield? with
  | none => exact List.filterMap_cons_none h
  | some l' => exact List.filterMap_cons_some h

@[simp] theorem yieldOf_append (ls rs : List Lexeme) :
    yieldOf (ls ++ rs) = yieldOf ls ++ yieldOf rs := List.filterMap_append

theorem yieldOf_operator (op : Operator) : yieldOf op.lexemes = op.lexemes := by
  cases op <;> rfl

/-- A symbol that only keeps expressions together or apart. -/
def Silent (sign : Symbol) : Prop := (Lexeme.symbol sign).yield? = none

theorem yieldOf_listed {separator : Symbol} (h : Silent separator) (trailing : Bool)
    (parts : List (List Lexeme)) :
    yieldOf (listed separator trailing parts) = parts.flatMap yieldOf :=
  filterMap_listed h trailing parts

theorem yieldOf_names (names : List String) :
    (names.map fun name => [Lexeme.identifier name]).flatMap yieldOf = names.map .identifier := by
  induction names with
  | nil => rfl
  | cons name names ih =>
    rw [List.map_cons, List.flatMap_cons, ih]
    rfl

namespace Expr

mutual
/-- What an expression is written with, but for brackets and separators. -/
def yield : Expr → List Lexeme
  | literal x => [.number x]
  | reference name => [.identifier name]
  | block body => yieldAll body
  | sequence body => yieldAll body
  | closure params body => params.map .identifier ++ .symbol .arrow :: body.yield
  | ifThen test consequent => .keyword .ifWord :: (test.yield ++ consequent.yield)
  | ifElse test consequent alternate =>
    .keyword .ifWord :: (test.yield ++ (consequent.yield ++ .keyword .elseWord :: alternate.yield))
  | assign name value => .keyword .letWord :: .identifier name :: .symbol .assign :: value.yield
  | binary left op right => left.yield ++ (op.lexemes ++ right.yield)
  | random => [.keyword .rand]
  | builtin f argument => .keyword f.keyword :: argument.yield
  | call name arguments => .identifier name :: yieldAll arguments
  | missing => []
/-- What some expressions are written with, one after another. -/
def yieldAll : List Expr → List Lexeme
  | [] => []
  | e :: es => e.yield ++ yieldAll es
end

theorem yieldAll_eq (es : List Expr) : yieldAll es = es.flatMap yield := by
  induction es with
  | nil => rfl
  | cons e es ih => rw [yieldAll, ih, List.flatMap_cons]

/-- Expressions with separators between them yield what their parts do. -/
theorem yieldOf_parts {separator : Symbol} (hseparator : Silent separator) (trailing : Bool)
    {parts : List (List Lexeme × Expr)} (h : ∀ part ∈ parts, part.2.yield = yieldOf part.1) :
    yieldOf (listed separator trailing (parts.map (·.1))) = yieldAll (parts.map (·.2)) := by
  rw [yieldOf_listed hseparator, yieldAll_eq]
  induction parts with
  | nil => rfl
  | cons part parts ih =>
    rw [List.map_cons, List.map_cons, List.flatMap_cons, List.flatMap_cons,
      h part List.mem_cons_self, ih fun part hpart => h part (List.mem_cons_of_mem _ hpart)]

/-- An expression yields what the lexemes that it is derived from do. -/
theorem Derives.yield {depth level : Nat} {ls : List Lexeme} {e : Expr}
    (h : Derives depth level ls e) : e.yield = yieldOf ls := by
  have hcomma : Silent .comma := rfl
  have hsemicolon : Silent .semicolon := rfl
  induction h with
  | literal h => simp [Expr.yield, Lexeme.yield?_literal h]
  | reference => rfl
  | block trailing h ih =>
    simp [Expr.yield, yieldOf_parts hsemicolon trailing ih, Lexeme.yield?]
  | parens h ih => simp [ih, Lexeme.yield?]
  | @closure _ _ trailing params ls body h ih =>
    have hparams := (yieldOf_listed hcomma trailing _).trans (yieldOf_names params)
    simp [Expr.yield, ih, hparams, Lexeme.yield?, Lexeme.literal?]
  | ifThen htest hconsequent ih₁ ih₂ =>
    simp [Expr.yield, ih₁, ih₂, Lexeme.yield?, Lexeme.literal?]
  | ifElse htest hconsequent halternate ih₁ ih₂ ih₃ =>
    simp [Expr.yield, ih₁, ih₂, ih₃, Lexeme.yield?, Lexeme.literal?]
  | assign name h ih => simp [Expr.yield, ih, Lexeme.yield?, Lexeme.literal?]
  | random => rfl
  | @builtin _ _ f ls argument h ih =>
    have hword : (Lexeme.keyword f.keyword).yield? = some (.keyword f.keyword) := by cases f <;> rfl
    have hopen : (Lexeme.symbol .openParen).yield? = none := rfl
    have hclose : (Lexeme.symbol .closeParen).yield? = none := rfl
    simp [Expr.yield, ih, hword, hopen, hclose]
  | call trailing h ih =>
    simp [Expr.yield, yieldOf_parts hcomma trailing ih, Lexeme.yield?, Lexeme.literal?]
  | @binary _ _ ls rs left right op hlevel hleft hright ih₁ ih₂ =>
    simp [Expr.yield, ih₁, ih₂, yieldOf_operator]

/-- A program yields what its statements do. -/
theorem yield_program {es : List Expr} {e : Expr} (h : ofStatements es = .ok e) :
    e.yield = yieldAll es := by
  match es, h with
  | [e'], h =>
    cases h
    exact (List.append_nil _).symm
  | e₁ :: e₂ :: es, h =>
    cases h
    rfl

/-- The program that tokens stand for, nested at most so deep (`ofTokens` for `Limits.read`), yields
what the tokens do: all of them, each once and in its place. -/
theorem yield_ofStatements {depth : Nat} {tokens : List Token} {e : Expr}
    (h : (statementsWithin depth tokens >>= ofStatements) = .ok e) :
    e.yield = yieldOf (tokens.map (·.lexeme)) := by
  obtain ⟨es, hes, he⟩ := bind_eq_ok.1 h
  obtain ⟨parts, trailing, rfl, hparts, hls⟩ := statementsWithin_sound hes
  have hsemicolon : Silent .semicolon := rfl
  rw [yield_program he, hls]
  exact (yieldOf_parts hsemicolon trailing fun part hpart => (hparts part hpart).yield).symm

/-- Tokens with these lexemes, wherever they stand. -/
def tokensWith (ls : List Lexeme) : List Token := ls.map (⟨·, .start, .start⟩)

/-- In `(a)(b)=>πb` the first parenthesis is tried as the parameters of a closure in vain. -/
theorem yield_ofStatements_parenthesis :
    let tokens := tokensWith [.symbol .openParen, .identifier "a", .symbol .closeParen,
      .symbol .openParen, .identifier "b", .symbol .closeParen, .symbol .arrow, .keyword .pi,
      .identifier "b"]
    ∃ e, ofTokens tokens = .ok e ∧ e.yield = [.identifier "a", .identifier "b", .symbol .arrow,
      .number 3.141592653589793, .identifier "b"] := by
  intro tokens
  have h : ofTokens tokens = .ok (.binary (.reference "a") .juxtaposed (.closure ["b"]
    (.binary (.literal 3.141592653589793) .juxtaposed (.reference "b")))) := rfl
  exact ⟨_, h, yield_ofStatements h⟩

end Expr

end Calculator
