import Calculator.Expr.OfTokens
import Calculator.Proofs.Bind

/-
  The limit for reading.  Reading with a smaller limit either gives up because of the limit or does
  what reading with a greater one does (`statementsWithin_refines`), so the limit decides nothing but
  whether the parser goes on, and where it gives up.
-/

namespace Calculator

/-- A result is given up as too deep, or is the other one. -/
def Refines {α : Type} (x y : Except ParseFault α) : Prop :=
  (∃ found, x = .error (.tooDeep found)) ∨ x = y

namespace Refines

variable {α β : Type}

theorem refl (x : Except ParseFault α) : Refines x x := .inr rfl

theorem trans {x y z : Except ParseFault α} (h : Refines x y) (h' : Refines y z) : Refines x z := by
  rcases h with h | rfl
  · exact .inl h
  · exact h'

theorem bind {x y : Except ParseFault α} {f g : α → Except ParseFault β} (h : Refines x y)
    (hf : ∀ a, Refines (f a) (g a)) : Refines (x >>= f) (y >>= g) := by
  rcases h with ⟨found, rfl⟩ | rfl
  · exact .inl ⟨found, rfl⟩
  · cases x with
    | error fault => exact .inr rfl
    | ok a => exact hf a

theorem map {x y : Except ParseFault α} (f : α → β) (h : Refines x y) :
    Refines (f <$> x) (f <$> y) := by
  rcases h with ⟨found, rfl⟩ | rfl
  · exact .inl ⟨found, rfl⟩
  · exact .inr rfl

end Refines

namespace TokenStream

section Readers

variable {read read' : ExprReader} (h : ∀ s, Refines (read s) (read' s))
include h

theorem demandExpr_refines (s : TokenStream) :
    Refines (s.demandExpr read) (s.demandExpr read') := (h s).bind fun _ => .refl _

theorem items_refines (separator closer : Symbol) (count : Nat) (s : TokenStream) :
    Refines (items read separator closer count s) (items read' separator closer count s) := by
  induction count generalizing s with
  | zero => exact .refl _
  | succ count ih =>
    rw [items, items]
    split
    · exact .refl _
    refine (demandExpr_refines h s).bind fun found => ?_
    dsimp only
    split
    · exact .refl _
    · exact (ih _).bind fun _ => .refl _

theorem bracketed_refines (separator closer : Symbol) (s : TokenStream) :
    Refines (s.bracketed read separator closer) (s.bracketed read' separator closer) :=
  (items_refines h separator closer _ s).bind fun _ => .refl _

theorem parenthesis_refines (s : TokenStream) :
    Refines (s.parenthesis read) (s.parenthesis read') := by
  rw [parenthesis, parenthesis]
  split
  · exact (demandExpr_refines h _).bind fun _ => .refl _
  · exact (demandExpr_refines h _).bind fun _ => .refl _

theorem named_refines (name : String) (s : TokenStream) :
    Refines (s.named read name) (s.named read' name) := by
  rw [named, named]
  split
  · exact .refl _
  · exact (bracketed_refines h _ _ _).bind fun _ => .refl _

theorem assignment_refines (s : TokenStream) :
    Refines (s.assignment read) (s.assignment read') :=
  (Refines.refl _).bind fun _ => (Refines.refl _).bind fun _ =>
    (demandExpr_refines h _).bind fun _ => .refl _

theorem conditional_refines (s : TokenStream) :
    Refines (s.conditional read) (s.conditional read') := by
  refine (Refines.refl _).bind fun _ => (demandExpr_refines h _).bind fun _ => ?_
  refine (Refines.refl _).bind fun _ => (demandExpr_refines h _).bind fun _ => ?_
  dsimp only
  split
  · exact .refl _
  · exact (demandExpr_refines h _).bind fun _ => .refl _

theorem operand_refines (f : Builtin) (s : TokenStream) :
    Refines (s.operand read f) (s.operand read' f) :=
  (Refines.refl _).bind fun _ => (demandExpr_refines h _).bind fun _ => .refl _

theorem primary_refines (s : TokenStream) : Refines (primary read s) (primary read' s) := by
  unfold primary
  split
  · exact .refl _
  dsimp only
  split
  · exact (bracketed_refines h _ _ _).bind fun _ => .refl _
  · exact (parenthesis_refines h _).map _
  · exact .refl _
  · exact (assignment_refines h _).map _
  · exact (conditional_refines h _).map _
  · exact .refl _
  · split
    · exact (operand_refines h _ _).map _
    · exact .refl _
  · exact .refl _
  · exact (named_refines h _ _).map _

theorem chainTail_refines (count : Nat) (s : TokenStream) :
    Refines (chainTail read count s) (chainTail read' count s) := by
  induction count generalizing s with
  | zero => exact .refl _
  | succ count ih =>
    refine (Refines.refl _).bind fun found => ?_
    cases found with
    | none => exact .refl _
    | some found =>
      exact (demandExpr_refines h _).bind fun _ => (ih _).bind fun _ => .refl _

theorem chain_refines (s : TokenStream) : Refines (chain read s) (chain read' s) := by
  refine (h s).bind fun found => ?_
  cases found with
  | none => exact .refl _
  | some found => exact (chainTail_refines h _ _).bind fun _ => .refl _

theorem statements_refines (count : Nat) (s : TokenStream) :
    Refines (statements read count s) (statements read' count s) := by
  induction count generalizing s with
  | zero => exact .refl _
  | succ count ih =>
    refine (h s).bind fun found => ?_
    cases found with
    | none => exact .refl _
    | some found =>
      dsimp only
      split
      · exact .refl _
      · exact (ih _).bind fun _ => .refl _

end Readers

/-- One more level of depth. -/
theorem expression_refines_succ (depth : Nat) (s : TokenStream) :
    Refines (expression depth s) (expression (depth + 1) s) := by
  induction depth generalizing s with
  | zero => exact .inl ⟨_, rfl⟩
  | succ depth ih => exact chain_refines (primary_refines ih) s

theorem expression_refines {depth depth' : Nat} (h : depth ≤ depth') (s : TokenStream) :
    Refines (expression depth s) (expression depth' s) := by
  induction h with
  | refl => exact .refl _
  | step h ih => exact ih.trans (expression_refines_succ _ s)

end TokenStream

namespace Expr

/-- Reading programs with a smaller limit gives up, or does what reading with a greater one does. -/
theorem statementsWithin_refines {depth depth' : Nat} (h : depth ≤ depth') (tokens : List Token) :
    Refines (statementsWithin depth tokens) (statementsWithin depth' tokens) :=
  (TokenStream.statements_refines (TokenStream.expression_refines h) _ _).bind fun _ => .refl _

/-- What is read within a smaller limit is read within a greater one. -/
theorem statementsWithin_mono {depth depth' : Nat} (h : depth ≤ depth') {tokens : List Token}
    {es : List Expr} (hes : statementsWithin depth tokens = .ok es) :
    statementsWithin depth' tokens = .ok es := by
  rcases statementsWithin_refines h tokens with ⟨found, hdeep⟩ | hsame
  · cases hes.symm.trans hdeep
  · exact hsame.symm.trans hes

/-- Statements that nest at most sixty deep are a program, whatever the limit is. -/
theorem ofTokens_of_statements [Limits] {tokens : List Token} {es : List Expr} {e : Expr}
    (hes : statementsWithin 60 tokens = .ok es) (he : ofStatements es = .ok e) :
    ofTokens tokens = .ok e :=
  bind_eq_ok.2 ⟨es, statementsWithin_mono Limits.sixty_le_read hes, he⟩

end Expr

end Calculator
