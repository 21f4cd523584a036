import Calculator.Proofs.Expr.Grammar
import Calculator.Proofs.Scan.Brackets

/-
  Brackets of programs.  Every rule of the grammar writes a bracket together with its partner, so
  the brackets among the lexemes of an expression are balanced (`Derives.balanced`), and so are those
  of the tokens that a program is read from (`balanced_of_ofTokens`).
-/

namespace Calculator

/-- Balanced words one after another are balanced. -/
theorem Balanced.flatMap {α : Type} {f : α → List Symbol} {as : List α}
    (h : ∀ a ∈ as, Balanced (f a)) : Balanced (as.flatMap f) := by
  induction as with
  | nil => exact .nil
  | cons a as ih =>
    rw [List.flatMap_cons]
    exact (h a List.mem_cons_self).append (ih fun a ha => h a (List.mem_cons_of_mem _ ha))

/-- What stands between two partners and what comes after them. -/
theorem Balanced.partners {opener closer : Symbol} {v w : List Symbol}
    (h : opener.closer? = some closer) (hv : Balanced v) (hw : Balanced w) :
    Balanced (opener :: (v ++ closer :: w)) := by
  rw [List.append_cons, ← List.cons_append]
  exact (Balanced.wrap h hv).append hw

theorem brackets_listed {separator : Symbol} (h : (Lexeme.symbol separator).bracket? = none)
    (trailing : Bool) (parts : List (List Lexeme)) :
    brackets (listed separator trailing parts) = parts.flatMap brackets :=
  filterMap_listed h trailing parts

theorem brackets_operator (op : Operator) : brackets op.lexemes = [] := by
  cases op <;> rfl

namespace Expr

/-- Expressions with separators between them are balanced when each of them is. -/
theorem balanced_parts {separator : Symbol} (hseparator : (Lexeme.symbol separator).bracket? = none)
    (trailing : Bool) {parts : List (List Lexeme × Expr)}
    (h : ∀ part ∈ parts, Balanced (brackets part.1)) :
    Balanced (brackets (listed separator trailing (parts.map (·.1)))) := by
  rw [brackets_listed hseparator, List.flatMap_map]
  exact .flatMap h

/-- The brackets of an expression are balanced. -/
theorem Derives.balanced {depth level : Nat} {ls : List Lexeme} {e : Expr}
    (h : Derives depth level ls e) : Balanced (brackets ls) := by
  have hbraces : Symbol.openBrace.closer? = some .closeBrace := rfl
  have hparens : Symbol.openParen.closer? = some .closeParen := rfl
  induction h with
  | @literal _ _ l x h =>
    have hnone : l.bracket? = none := by
      cases l with
      | symbol sign => cases h
      | _ => rfl
    rw [brackets_cons, hnone]
    exact .nil
  | reference => exact .nil
  | block trailing h ih =>
    have hseparator : (Lexeme.symbol .semicolon).bracket? = none := rfl
    have hparts := balanced_parts hseparator trailing ih
    simpa [Lexeme.bracket?] using Balanced.wrap hbraces hparts
  | parens h ih => simpa [Lexeme.bracket?] using Balanced.wrap hparens ih
  | @closure _ _ trailing params ls body h ih =>
    have hparams : brackets (listed .comma trailing (params.map fun name => [.identifier name])) =
        [] := by
      rw [brackets_listed rfl, List.flatMap_map]
      exact List.flatMap_eq_nil_iff.2 fun name _ => rfl
    simpa [Lexeme.bracket?, hparams] using Balanced.partners hparens .nil ih
  | ifThen htest hconsequent ih₁ ih₂ =>
    simpa [Lexeme.bracket?] using Balanced.partners hparens ih₁ ih₂
  | ifElse htest hconsequent halternate ih₁ ih₂ ih₃ =>
    simpa [Lexeme.bracket?] using Balanced.partners hparens ih₁ (ih₂.append ih₃)
  | assign name h ih => simpa [Lexeme.bracket?] using ih
  | random => exact .wrap hparens .nil
  | builtin h ih => simpa [Lexeme.bracket?] using Balanced.wrap hparens ih
  | call trailing h ih =>
    have hseparator : (Lexeme.symbol .comma).bracket? = none := rfl
    have hparts := balanced_parts hseparator trailing ih
    simpa [Lexeme.bracket?] using Balanced.wrap hparens hparts
  | binary hlevel hleft hright ih₁ ih₂ =>
    simpa [brackets_operator] using ih₁.append ih₂

/-- The brackets of the tokens of a program are balanced. -/
theorem balanced_of_ofTokens [Limits] {tokens : List Token} {e : Expr}
    (h : ofTokens tokens = .ok e) : Balanced (brackets (tokens.map (·.lexeme))) := by
  obtain ⟨es, hes, -⟩ := bind_eq_ok.1 h
  obtain ⟨parts, trailing, -, hparts, hls⟩ := statementsWithin_sound hes
  rw [hls]
  exact balanced_parts rfl trailing fun part hpart => (hparts part hpart).balanced

end Expr

end Calculator
