import Calculator.Code.OfExpr
import Calculator.Proofs.Expr.Grammar
import Calculator.Proofs.Expr.TextReads

/-
  What the grammar gives can be written, coded and read again.  A derivation of legal lexemes is
  printable (`Derives.printable`).  One level of it holds at most four operators inside each other,
  so it stays below the limits for code and for texts (`Derives.fitsLevel`).
  `Expr.nesting` is how deep the text of an expression nests: parentheses that the printer adds make
  it deeper than what was read, but no more than three times (`Derives.nestsLevel`).
-/

namespace Calculator

namespace Expr

open Scan

/-! ## Shape of what is derived -/

theorem literal?_isNumber {l : Lexeme} {x : Number} (h : l.literal? = some x) (hl : Legal l) :
    x.IsNumber := by
  cases l with
  | number value =>
    cases h
    exact hl
  | keyword word =>
    cases word <;> cases h
    · exact Decimal.float_ofScientific_ne_nan _ _ _
    · exact Decimal.float_ofScientific_ne_nan _ _ _
  | symbol sign => cases h
  | identifier name => cases h

/-- What legal lexemes say can be written. -/
theorem Derives.printable {depth level : Nat} {ls : List Lexeme} {e : Expr}
    (h : Derives depth level ls e) (hls : ∀ l ∈ ls, Legal l) : e.Printable := by
  have hparts {separator : Symbol} {trailing : Bool} {parts : List (List Lexeme × Expr)}
      (ih : ∀ part ∈ parts, (∀ l ∈ part.1, Legal l) → part.2.Printable)
      (hlegal : ∀ l ∈ listed separator trailing (parts.map (·.1)), Legal l) :
      ∀ e ∈ parts.map (·.2), e.Printable := by
    intro e he
    obtain ⟨part, hpart, rfl⟩ := List.mem_map.1 he
    exact ih part hpart fun l hl => hlegal l (mem_listed (List.mem_map_of_mem hpart) hl)
  induction h with
  | literal h => exact .literal (literal?_isNumber h (hls _ List.mem_cons_self))
  | reference => exact .reference (hls _ List.mem_cons_self)
  | block trailing h ih =>
    simp only [List.mem_append, List.mem_cons, or_imp, forall_and, forall_eq] at hls
    exact .block (hparts ih hls.1.2)
  | parens h ih =>
    simp only [List.mem_append, List.mem_cons, or_imp, forall_and, forall_eq] at hls
    exact ih hls.1.2
  | closure trailing h ih =>
    simp only [List.mem_append, List.mem_cons, or_imp, forall_and, forall_eq] at hls
    refine .closure (fun p hp => ?_) (ih hls.2.2.2)
    exact hls.1.2 (.identifier p) (mem_listed (List.mem_map_of_mem hp) List.mem_cons_self)
  | ifThen htest hconsequent ih₁ ih₂ =>
    simp only [List.mem_append, List.mem_cons, or_imp, forall_and, forall_eq] at hls
    exact .ifThen (ih₁ hls.1.2.2) (ih₂ hls.2.2)
  | ifElse htest hconsequent halternate ih₁ ih₂ ih₃ =>
    simp only [List.mem_append, List.mem_cons, or_imp, forall_and, forall_eq] at hls
    exact .ifElse (ih₁ hls.1.1.2.2) (ih₂ hls.1.2.2) (ih₃ hls.2.2)
  | assign name h ih =>
    simp only [List.mem_cons, or_imp, forall_and, forall_eq] at hls
    exact .assign hls.2.1 (ih hls.2.2.2)
  | random => exact .random
  | builtin h ih =>
    simp only [List.mem_append, List.mem_cons, or_imp, forall_and, forall_eq] at hls
    exact .builtin (ih hls.1.2.2)
  | call trailing h ih =>
    simp only [List.mem_append, List.mem_cons, or_imp, forall_and, forall_eq] at hls
    exact .call hls.1.1 (hparts ih hls.1.2.2)
  | binary hlevel hleft hright ih₁ ih₂ =>
    simp only [List.mem_append, or_imp, forall_and] at hls
    exact .binary (ih₁ hls.1.1) (ih₂ hls.2)

/-! ## Limits of the printer and of the code -/

theorem formatFaultAll?_eq_none {depth : Nat} {es : List Expr} :
    formatFaultAll? depth es = none ↔ ∀ e ∈ es, formatFault? depth e = none := by
  induction es with
  | nil => exact ⟨nofun, fun _ => rfl⟩
  | cons e es ih => rw [formatFaultAll?, Option.or_eq_none_iff, ih, List.forall_mem_cons]

theorem codeFaultAll?_eq_none {depth : Nat} {es : List Expr} :
    codeFaultAll? depth es = none ↔ ∀ e ∈ es, codeFault? depth e = none := by
  induction es with
  | nil => exact ⟨nofun, fun _ => rfl⟩
  | cons e es ih => rw [codeFaultAll?, Option.or_eq_none_iff, ih, List.forall_mem_cons]

theorem codeFaultBack?_eq_none {depth : Nat} {es : List Expr} :
    codeFaultBack? depth es = none ↔ ∀ e ∈ es, codeFault? depth e = none := by
  induction es with
  | nil => exact ⟨nofun, fun _ => rfl⟩
  | cons e es ih =>
    rw [codeFaultBack?, Option.or_eq_none_iff, ih, List.forall_mem_cons, and_comm]

/-- An expression that may nest so deep has a text and code. -/
def Fits (depth : Nat) (e : Expr) : Prop :=
  formatFault? depth e = none ∧ codeFault? depth e = none

section Fits

variable {depth : Nat} {e e₁ e₂ e₃ : Expr} {es : List Expr}

theorem Fits.block (h : ∀ e ∈ es, Fits depth e) : Fits (depth + 1) (.block es) :=
  ⟨formatFaultAll?_eq_none.2 fun e he => (h e he).1, codeFaultAll?_eq_none.2 fun e he => (h e he).2⟩

theorem Fits.sequence (h : ∀ e ∈ es, Fits depth e) : Fits (depth + 1) (.sequence es) :=
  ⟨formatFaultAll?_eq_none.2 fun e he => (h e he).1, codeFaultAll?_eq_none.2 fun e he => (h e he).2⟩

theorem Fits.call {name : String} (h : ∀ e ∈ es, Fits depth e) : Fits (depth + 1) (.call name es) :=
  ⟨formatFaultAll?_eq_none.2 fun e he => (h e he).1,
    codeFaultBack?_eq_none.2 fun e he => (h e he).2⟩

theorem Fits.ifThen (h₁ : Fits depth e₁) (h₂ : Fits depth e₂) :
    Fits (depth + 1) (.ifThen e₁ e₂) := by
  constructor
  · rw [formatFault?, h₁.1, h₂.1]
    rfl
  · rw [codeFault?, h₁.2, h₂.2]
    rfl

theorem Fits.ifElse (h₁ : Fits depth e₁) (h₂ : Fits depth e₂) (h₃ : Fits depth e₃) :
    Fits (depth + 1) (.ifElse e₁ e₂ e₃) := by
  constructor
  · rw [formatFault?, h₁.1, h₂.1, h₃.1]
    rfl
  · rw [codeFault?, h₁.2, h₂.2, h₃.2]
    rfl

/-- A left operand nests only in the text, and there only in parentheses. -/
theorem Fits.binary {op : Operator} (hleft : Fits (depth + 1) e₁)
    (hparens : e₁.needsParens op.precedence = true → Fits depth e₁) (hright : Fits depth e₂) :
    Fits (depth + 1) (.binary e₁ op e₂) := by
  constructor
  · rw [formatFault?, hright.1]
    split
    · next h => rw [(hparens h).1]; rfl
    · rw [hleft.1]; rfl
  · rw [codeFault?, hleft.2, hright.2]
    rfl

end Fits

/-- What one level of the grammar needs to fit: an operand leaves room for four operators around it,
and an operation of this class or a higher one for as many as its class. -/
def FitsLevel (depth level : Nat) (e : Expr) : Prop :=
  (∀ n, 5 * depth ≤ n + 4 → Fits n e) ∨
    ∃ left op right, e = .binary left op right ∧ level ≤ op.precedence ∧
      ∀ n, 5 * depth ≤ n + op.precedence → Fits n e

section FitsLevel

variable {depth level n : Nat} {e left right : Expr} {es : List Expr}

theorem FitsLevel.fits (h : FitsLevel depth level e) (hn : 5 * depth ≤ n) : Fits n e := by
  rcases h with h | ⟨left, op, right, -, -, h⟩
  · exact h n (by omega)
  · exact h n (by omega)

/-- An operand whose parts are of the level below. -/
theorem FitsLevel.operand (h : ∀ n, 5 * depth ≤ n → Fits (n + 1) e) :
    FitsLevel (depth + 1) level e := by
  refine .inl fun n hn => ?_
  obtain ⟨n, rfl⟩ : ∃ k, n = k + 1 := ⟨n - 1, by omega⟩
  exact h n (by omega)

/-- An operation on operands of its level, the right one of a higher class. -/
theorem FitsLevel.binary {op : Operator} (hdepth : 0 < depth) (hlevel : level ≤ op.precedence)
    (hleft : FitsLevel depth op.precedence left)
    (hright : FitsLevel depth (op.precedence + 1) right) :
    FitsLevel depth level (.binary left op right) := by
  have hop := op.precedence_le
  refine .inr ⟨left, op, right, rfl, hlevel, fun n hn => ?_⟩
  obtain ⟨n, rfl⟩ : ∃ k, n = k + 1 := ⟨n - 1, by omega⟩
  have hfits : Fits n right := by
    rcases hright with h | ⟨_, op', _, -, hop', h⟩
    · exact h n (by omega)
    · exact h n (by omega)
  rcases hleft with h | ⟨left', op', right', rfl, hop', h⟩
  · exact .binary (h _ (by omega)) (fun _ => h _ (by omega)) hfits
  · refine .binary (h _ (by omega)) (fun hparens => ?_) hfits
    simp only [needsParens, isOpenEnded, isBelow, Bool.false_or, decide_eq_true_eq] at hparens
    omega

end FitsLevel

/-- One level of the grammar holds an operand and at most four operators inside each other. -/
theorem Derives.fitsLevel {depth level : Nat} {ls : List Lexeme} {e : Expr}
    (h : Derives depth level ls e) : FitsLevel depth level e := by
  have items {depth n : Nat} {parts : List (List Lexeme × Expr)}
      (ih : ∀ part ∈ parts, FitsLevel depth 0 part.2) (hn : 5 * depth ≤ n) :
      ∀ e ∈ parts.map (·.2), Fits n e := by
    intro e he
    obtain ⟨part, hpart, rfl⟩ := List.mem_map.1 he
    exact (ih part hpart).fits hn
  induction h with
  | literal h => exact .operand fun n hn => ⟨rfl, rfl⟩
  | reference => exact .operand fun n hn => ⟨rfl, rfl⟩
  | block trailing h ih => exact .operand fun n hn => .block (items ih hn)
  | parens h ih => exact .inl fun n hn => ih.fits (by omega)
  | closure trailing h ih => exact .operand fun n hn => ⟨(ih.fits hn).1, (ih.fits hn).2⟩
  | ifThen htest hconsequent ih₁ ih₂ =>
    exact .operand fun n hn => .ifThen (ih₁.fits hn) (ih₂.fits hn)
  | ifElse htest hconsequent halternate ih₁ ih₂ ih₃ =>
    exact .operand fun n hn => .ifElse (ih₁.fits hn) (ih₂.fits hn) (ih₃.fits hn)
  | assign name h ih => exact .operand fun n hn => ⟨(ih.fits hn).1, (ih.fits hn).2⟩
  | random => exact .operand fun n hn => ⟨rfl, rfl⟩
  | builtin h ih => exact .operand fun n hn => ⟨(ih.fits hn).1, (ih.fits hn).2⟩
  | call trailing h ih => exact .operand fun n hn => .call (items ih hn)
  | binary hlevel hleft hright ih₁ ih₂ => exact .binary hleft.depth_pos hlevel ih₁ ih₂

theorem ofStatements_eq_ok {es : List Expr} {e : Expr} (h : ofStatements es = .ok e) :
    es = [e] ∨ 2 ≤ es.length ∧ e = .sequence es := by
  match es, h with
  | [e'], h =>
    cases h
    exact .inl rfl
  | e₁ :: e₂ :: es, h =>
    cases h
    exact .inr ⟨by simp, rfl⟩

/-- Every program fits within a limit above five times its own. -/
theorem fits_ofTokens [Limits] {tokens : List Token} {e : Expr} (h : ofTokens tokens = .ok e)
    {n : Nat} (hn : 5 * Limits.read < n) : Fits n e := by
  obtain ⟨es, hes, h⟩ := bind_eq_ok.1 h
  have hall {n : Nat} (hn : 5 * Limits.read ≤ n) : ∀ e ∈ es, Fits n e :=
    (statementsWithin_sound hes).forall_mem fun _ _ hderives _ => hderives.fitsLevel.fits hn
  rcases ofStatements_eq_ok h with heq | ⟨-, rfl⟩
  · exact hall (Nat.le_of_lt hn) e (by rw [heq]; exact List.mem_cons_self)
  · -- A program of several statements is one level more than they are.
    obtain ⟨n, rfl⟩ : ∃ k, n = k + 1 := ⟨n - 1, by omega⟩
    exact .sequence (hall (Nat.le_of_lt_succ hn))

/-- Every program of legal tokens can be written. -/
theorem printable_ofTokens [Limits] {tokens : List Token} {e : Expr} (h : ofTokens tokens = .ok e)
    (hlegal : ∀ t ∈ tokens, Legal t.lexeme) : e.PrintableProgram := by
  obtain ⟨es, hes, h⟩ := bind_eq_ok.1 h
  have hall : ∀ e ∈ es, e.Printable := by
    refine (statementsWithin_sound hes).forall_mem fun part e hderives hmem => ?_
    refine hderives.printable fun l hl => ?_
    obtain ⟨t, ht, rfl⟩ := List.mem_map.1 (hmem l hl)
    exact hlegal t ht
  rcases ofStatements_eq_ok h with heq | ⟨hlength, rfl⟩
  · exact .single (hall e (by rw [heq]; exact List.mem_cons_self))
  · exact .sequence hall hlength

/-! ## Nesting of the text -/

mutual
/-- How deep the text of an expression nests. -/
def nesting : Expr → Nat
  | literal _ | reference _ | random | missing => 1
  | block body => nestingAll body + 1
  | sequence body => nestingAll body
  | closure _ body => body.nesting + 1
  | ifThen test consequent =>
    max test.nesting (consequent.nesting + consequent.startsNegative.toNat) + 1
  | ifElse test consequent alternate =>
    max (max test.nesting (consequent.nesting +
      (consequent.needsParens 0 || consequent.startsNegative).toNat)) alternate.nesting + 1
  | assign _ value => value.nesting + 1
  | binary left op right =>
    max (left.nesting + (left.needsParens op.precedence).toNat)
      (right.nesting + (right.needsParens (op.precedence + 1)).toNat)
  | builtin _ argument => argument.nesting + 1
  | call _ arguments => nestingAll arguments + 1
/-- How deep the texts of some expressions nest. -/
def nestingAll : List Expr → Nat
  | [] => 0
  | e :: es => max e.nesting (nestingAll es)
end

theorem nestingAll_le {n : Nat} {es : List Expr} :
    nestingAll es ≤ n ↔ ∀ e ∈ es, e.nesting ≤ n := by
  induction es with
  | nil => exact ⟨nofun, fun _ => Nat.zero_le _⟩
  | cons e es ih => rw [nestingAll, Nat.max_le, ih, List.forall_mem_cons]

/-- How deep the text of one level of the grammar may nest: an operand has room for parentheses, and
an operation of this class or a higher one takes none. -/
def NestsLevel (depth level : Nat) (e : Expr) : Prop :=
  e.nesting + 1 ≤ 3 * depth ∨
    ∃ left op right, e = .binary left op right ∧ level ≤ op.precedence ∧ e.nesting ≤ 3 * depth

section NestsLevel

variable {depth level : Nat} {e : Expr}

theorem NestsLevel.nesting_le (h : NestsLevel depth level e) : e.nesting ≤ 3 * depth := by
  rcases h with h | ⟨_, _, _, -, -, h⟩
  · omega
  · exact h

/-- An operand in the parentheses that the printer adds to it. -/
theorem NestsLevel.parens_le (h : NestsLevel depth level e) :
    e.nesting + (e.needsParens level).toNat ≤ 3 * depth := by
  rcases h with h | ⟨left, op, right, rfl, hop, h⟩
  · have := Bool.toNat_le (e.needsParens level)
    omega
  · have hparens : (Expr.binary left op right).needsParens level = false := by
      simp only [needsParens, isOpenEnded, isBelow, Bool.false_or, decide_eq_false_iff_not]
      omega
    rw [hparens]
    exact h

end NestsLevel

/-- The text of what nests `depth` deep nests at most three times as deep: a level of it may be in
parentheses as an operand, in a condition, and there in parentheses as the consequent. -/
theorem Derives.nestsLevel {depth level : Nat} {ls : List Lexeme} {e : Expr}
    (h : Derives depth level ls e) : NestsLevel depth level e := by
  have items {depth : Nat} {parts : List (List Lexeme × Expr)}
      (ih : ∀ part ∈ parts, NestsLevel depth 0 part.2) :
      nestingAll (parts.map (·.2)) ≤ 3 * depth := by
    rw [nestingAll_le]
    intro e he
    obtain ⟨part, hpart, rfl⟩ := List.mem_map.1 he
    exact (ih part hpart).nesting_le
  induction h with
  | @literal depth => exact .inl (by rw [nesting]; omega)
  | @reference depth => exact .inl (by rw [nesting]; omega)
  | block trailing h ih =>
    have hitems := items ih
    exact .inl (by rw [nesting]; omega)
  | parens h ih =>
    have hnested := ih.nesting_le
    exact .inl (by omega)
  | closure trailing h ih =>
    have hnested := ih.nesting_le
    exact .inl (by rw [nesting]; omega)
  | @ifThen depth level ls₁ ls₂ test consequent htest hconsequent ih₁ ih₂ =>
    have h₁ := ih₁.nesting_le
    have h₂ := ih₂.nesting_le
    have := Bool.toNat_le consequent.startsNegative
    exact .inl (by rw [nesting]; omega)
  | @ifElse depth level ls₁ ls₂ ls₃ test consequent alternate htest hconsequent halternate
      ih₁ ih₂ ih₃ =>
    have h₁ := ih₁.nesting_le
    have h₂ := ih₂.nesting_le
    have h₃ := ih₃.nesting_le
    have := Bool.toNat_le (consequent.needsParens 0 || consequent.startsNegative)
    exact .inl (by rw [nesting]; omega)
  | assign name h ih =>
    have hnested := ih.nesting_le
    exact .inl (by rw [nesting]; omega)
  | @random depth => exact .inl (by rw [nesting]; omega)
  | builtin h ih =>
    have hnested := ih.nesting_le
    exact .inl (by rw [nesting]; omega)
  | call trailing h ih =>
    have hitems := items ih
    exact .inl (by rw [nesting]; omega)
  | @binary depth level ls rs left right op hlevel hleft hright ih₁ ih₂ =>
    refine .inr ⟨left, op, right, rfl, hlevel, ?_⟩
    rw [nesting]
    exact Nat.max_le.2 ⟨ih₁.parens_le, ih₂.parens_le⟩

/-- The text of a program that nests at most a third as deep as programs may nests no deeper than
they may. -/
theorem nesting_ofStatements {depth : Nat} {tokens : List Token} {es : List Expr} {e : Expr}
    (h : statementsWithin depth tokens = .ok es) (he : ofStatements es = .ok e) :
    e.nesting ≤ 3 * depth := by
  have hall : ∀ e ∈ es, e.nesting ≤ 3 * depth :=
    (statementsWithin_sound h).forall_mem fun _ _ hderives _ => hderives.nestsLevel.nesting_le
  rcases ofStatements_eq_ok he with heq | ⟨-, rfl⟩
  · exact hall e (by rw [heq]; exact List.mem_cons_self)
  · rw [nesting, nestingAll_le]
    exact hall

end Expr

end Calculator
