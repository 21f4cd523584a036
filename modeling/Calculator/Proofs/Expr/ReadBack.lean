import Calculator.Proofs.Expr.Nesting

/-
  Expressions read back.  Tokens with the lexemes of an expression are read as its normal form, at
  every depth that its text nests to (`Printable.takes`).  The text of an operation is a chain of
  operands and operators: parentheses are where the grouping of the chain would go wrong without
  them, so the chain groups to the operation (`Printable.group_chain`).
-/

namespace Calculator

namespace Expr

/-! ## An operation as a chain -/

/-- The first operand in the text of an expression. -/
def chainHead : Expr → Expr
  | binary left op _ => if left.needsParens op.precedence then left.normal else left.chainHead
  | e => e.normal

/-- The operators in the text of an expression, each with the operand after it. -/
def chainTail : Expr → List (Operator × Expr)
  | binary left op right =>
    (if left.needsParens op.precedence then [] else left.chainTail) ++
      (op.written, if right.needsParens (op.precedence + 1) then right.normal else right.chainHead) ::
        (if right.needsParens (op.precedence + 1) then [] else right.chainTail)
  | _ => []

/-- The first operand in the text of an operand. -/
def operandHead (least : Nat) (e : Expr) : Expr :=
  if e.needsParens least then e.normal else e.chainHead

/-- The operators in the text of an operand, each with the operand after it. -/
def operandTail (least : Nat) (e : Expr) : List (Operator × Expr) :=
  if e.needsParens least then [] else e.chainTail

theorem chainTail_binary (left : Expr) (op : Operator) (right : Expr) :
    (binary left op right).chainTail = operandTail op.precedence left ++
      (op.written, operandHead (op.precedence + 1) right) ::
        operandTail (op.precedence + 1) right := rfl

open Chain in
/-- Pending operators of lower classes stay pending. -/
theorem reduce_of_lt {least : Nat} {pending : Pending} (right : Expr)
    (h : ∀ item ∈ pending.head?, item.2.precedence < least) :
    reduce least pending right = (pending, right) := by
  cases pending with
  | nil => rfl
  | cons item pending =>
    have hlt := h item rfl
    rw [reduce, if_neg (by omega)]

open Chain in
/-- A pending operator whose class is not below that of the next one is applied. -/
theorem group_apply {pending : Pending} {left right : Expr} {op : Operator}
    {rest : List (Operator × Expr)} (h : ∀ item ∈ rest.head?, item.1.precedence ≤ op.precedence) :
    group ((left, op) :: pending) right rest = group pending (.binary left op right) rest := by
  cases rest with
  | nil => rw [group, group, reduce, if_pos (Nat.zero_le _)]
  | cons item rest =>
    have hle := h item rfl
    rw [group, group, reduce, if_pos hle]

open Chain in
/-- An operand in a chain groups to what it says, between operators of lower classes before it and
of no higher class after it. -/
theorem group_operand {least : Nat} {e : Expr} {pending : Pending} {rest : List (Operator × Expr)}
    (h : e.needsParens least = false →
      group pending e.chainHead (e.chainTail ++ rest) = group pending e.normal rest) :
    group pending (operandHead least e) (operandTail least e ++ rest) =
      group pending e.normal rest := by
  unfold operandHead operandTail
  cases hparens : e.needsParens least with
  | true => rfl
  | false => exact h hparens

open Chain in
/-- The text of an operation groups to the operation. -/
theorem Printable.group_chain {e : Expr} (h : e.Printable) {least : Nat} {pending : Pending}
    {rest : List (Operator × Expr)} (hparens : e.needsParens least = false)
    (hpending : ∀ item ∈ pending.head?, item.2.precedence < least)
    (hrest : ∀ item ∈ rest.head?, item.1.precedence ≤ least) :
    group pending e.chainHead (e.chainTail ++ rest) = group pending e.normal rest := by
  induction h generalizing least pending rest with
  | @binary left op right hleft hright ih₁ ih₂ =>
    have hle : least ≤ op.precedence := by
      simpa [needsParens, isOpenEnded, isBelow] using hparens
    rw [chainTail_binary, List.append_assoc, List.cons_append]
    change group pending (operandHead op.precedence left) _ = _
    rw [group_operand fun hno => ih₁ hno
      (fun item hitem => Nat.lt_of_lt_of_le (hpending item hitem) hle) (by rintro _ ⟨⟩; simp)]
    rw [group, Operator.written_precedence, reduce_of_lt left.normal
      fun item hitem => Nat.lt_of_lt_of_le (hpending item hitem) hle]
    dsimp only
    rw [group_operand fun hno => ih₂ hno (by rintro _ ⟨⟩; simp)
      fun item hitem => Nat.le_succ_of_le (Nat.le_trans (hrest item hitem) hle)]
    rw [group_apply fun item hitem => by
      rw [Operator.written_precedence]
      exact Nat.le_trans (hrest item hitem) hle]
    rfl
  | _ => rfl

/-- The text of an expression, read as a chain, is the expression. -/
theorem Printable.toExpr_chain {e : Expr} (h : e.Printable) :
    Chain.toExpr ⟨e.chainHead, e.chainTail⟩ = e.normal := by
  have hnone : Chain.group [] e.normal [] = e.normal := rfl
  cases hopen : e.isOpenEnded with
  | true => cases e <;> first | rfl | cases hopen
  | false =>
    have hparens : e.needsParens 0 = false := by
      cases e <;> simp_all [needsParens, isBelow]
    have hgroup : Chain.group [] e.chainHead (e.chainTail ++ []) = Chain.group [] e.normal [] :=
      h.group_chain hparens (by simp) (by simp)
    rw [List.append_nil, hnone] at hgroup
    exact hgroup

/-! ## How the text of an expression starts -/

/-- The first lexemes of an expression: none that closes a bracket, and after a name none that makes
it the first of some parameters. -/
def Opens (ls : List Lexeme) : Prop :=
  (∃ name, ls = [.identifier name]) ∨
    (∃ name l others, ls = .identifier name :: l :: others ∧
      l ≠ .symbol .comma ∧ l ≠ .symbol .closeParen) ∨
    ∃ l others, ls = l :: others ∧ (∀ name, l ≠ .identifier name) ∧
      l ≠ .symbol .closeParen ∧ l ≠ .symbol .closeBrace

namespace Opens

theorem append {ls : List Lexeme} (h : Opens ls) {l : Lexeme} {others : List Lexeme}
    (hcomma : l ≠ .symbol .comma) (hclose : l ≠ .symbol .closeParen) :
    Opens (ls ++ l :: others) := by
  rcases h with ⟨name, rfl⟩ | ⟨name, l', others', rfl, hl'⟩ | ⟨l', others', rfl, hl'⟩
  · exact .inr (.inl ⟨name, l, others, rfl, hcomma, hclose⟩)
  · exact .inr (.inl ⟨name, l', _, rfl, hl'⟩)
  · exact .inr (.inr ⟨l', _, rfl, hl'⟩)

theorem ne_nil {ls : List Lexeme} (h : Opens ls) : ls ≠ [] := by
  rcases h with ⟨name, rfl⟩ | ⟨name, l', others', rfl, -⟩ | ⟨l', others', rfl, -⟩ <;> simp

/-- An expression does not start with a closing bracket. -/
theorem head_ne {ls : List Lexeme} (h : Opens ls) {closer : Symbol}
    (hcloser : closer = .closeParen ∨ closer = .closeBrace) (others : List Lexeme) :
    (ls ++ others).head? ≠ some (.symbol closer) := by
  rcases h with ⟨name, rfl⟩ | ⟨name, l, others, rfl, -⟩ | ⟨l, others, rfl, -, hl⟩
  · simp
  · simp
  · rcases hcloser with rfl | rfl
    · simp [hl.1]
    · simp [hl.2]

/-- An expression in parentheses that no arrow follows is not the parameters of a closure. -/
theorem ne_params {ls : List Lexeme} (h : Opens ls) {others : List Lexeme}
    (hothers : others.head? ≠ some (.symbol .arrow)) (trailing : Bool) (params : List String)
    (rest : List Lexeme) : ls ++ .symbol .closeParen :: others ≠
      listed .comma trailing (params.map fun name => [.identifier name]) ++
        .symbol .closeParen :: .symbol .arrow :: rest := by
  intro heq
  rcases params with _ | ⟨p, _ | ⟨p', params⟩⟩
  · exact h.head_ne (.inl rfl) _ (by rw [heq]; rfl)
  · rcases h with ⟨name, rfl⟩ | ⟨name, l, others, rfl, hcomma, hclose⟩ | ⟨l, others, rfl, hname, -⟩ <;>
      cases trailing <;> simp_all [listed]
  · rcases h with ⟨name, rfl⟩ | ⟨name, l, others, rfl, hcomma, hclose⟩ | ⟨l, others, rfl, hname, -⟩ <;>
      simp_all [listed]

end Opens

theorem Printable.opens {e : Expr} (h : e.Printable) : Opens e.lexemes := by
  have other {l : Lexeme} {others : List Lexeme} (hname : ∀ name, l ≠ .identifier name)
      (hclose : l ≠ .symbol .closeParen ∧ l ≠ .symbol .closeBrace) : Opens (l :: others) :=
    .inr (.inr ⟨l, others, rfl, hname, hclose⟩)
  induction h with
  | literal h => exact other (by simp) (by simp)
  | @reference name h => exact .inl ⟨name, rfl⟩
  | block h ih => exact other (by simp) (by simp)
  | closure hparams h ih => exact other (by simp) (by simp)
  | ifThen htest hconsequent ih₁ ih₂ => exact other (by simp) (by simp)
  | ifElse htest hconsequent halternate ih₁ ih₂ ih₃ => exact other (by simp) (by simp)
  | assign hname h ih => exact other (by simp) (by simp)
  | @binary left op right hleft hright ih₁ ih₂ =>
    rw [lexemes, inParens]
    split
    · exact other (by simp) (by simp)
    · exact ih₁.append (by cases op <;> simp [Operator.symbol])
        (by cases op <;> simp [Operator.symbol])
  | random => exact other (by simp) (by simp)
  | builtin h ih => exact other (by simp) (by simp)
  | @call name arguments hname h ih =>
    exact .inr (.inl ⟨name, .symbol .openParen, _, rfl, by simp⟩)

end Expr

/-! ## Reading tokens with given lexemes -/

namespace TokenStream

open Calculator.Expr

theorem exists_of_lexemes {s : TokenStream} {l : Lexeme} {ls : List Lexeme}
    (h : s.lexemes = l :: ls) : ∃ previous token rest, s = ⟨previous, token :: rest⟩ ∧
      token.lexeme = l ∧ lexemes ⟨some token, rest⟩ = ls := by
  obtain ⟨previous, rest⟩ := s
  obtain ⟨token, rest, rfl, hl, hls⟩ := List.map_eq_cons_iff.1 h
  exact ⟨previous, token, rest, rfl, hl, hls⟩

theorem take?_lexemes {s : TokenStream} {sign : Symbol} {ls : List Lexeme}
    (h : s.lexemes = .symbol sign :: ls) : ∃ s', s.take? sign = some s' ∧ s'.lexemes = ls := by
  obtain ⟨previous, token, rest, rfl, hl, hls⟩ := exists_of_lexemes h
  exact ⟨⟨some token, rest⟩, if_pos hl, hls⟩

theorem takeWord?_lexemes {s : TokenStream} {word : Keyword} {ls : List Lexeme}
    (h : s.lexemes = .keyword word :: ls) : ∃ s', s.takeWord? word = some s' ∧ s'.lexemes = ls := by
  obtain ⟨previous, token, rest, rfl, hl, hls⟩ := exists_of_lexemes h
  exact ⟨⟨some token, rest⟩, if_pos hl, hls⟩

theorem take?_eq_none {s : TokenStream} {sign : Symbol}
    (h : s.lexemes.head? ≠ some (.symbol sign)) : s.take? sign = none := by
  cases hs : s.take? sign with
  | none => rfl
  | some s' => exact absurd (by rw [take?_sound hs]; rfl) h

theorem takeWord?_eq_none {s : TokenStream} {word : Keyword}
    (h : s.lexemes.head? ≠ some (.keyword word)) : s.takeWord? word = none := by
  cases hs : s.takeWord? word with
  | none => rfl
  | some s' => exact absurd (by rw [takeWord?_sound hs]; rfl) h

theorem demand_lexemes {s : TokenStream} {sign : Symbol} {ls : List Lexeme}
    (h : s.lexemes = .symbol sign :: ls) : ∃ s', s.demand sign = .ok s' ∧ s'.lexemes = ls := by
  obtain ⟨s', hs', hls⟩ := take?_lexemes h
  exact ⟨s', by rw [demand, hs'], hls⟩

theorem demandName_lexemes {s : TokenStream} {name : String} {ls : List Lexeme}
    (h : s.lexemes = .identifier name :: ls) :
    ∃ s', s.demandName = .ok (name, s') ∧ s'.lexemes = ls := by
  obtain ⟨previous, ⟨lexeme, start, stop⟩, rest, rfl, hl, hls⟩ := exists_of_lexemes h
  obtain rfl : lexeme = .identifier name := hl
  exact ⟨_, rfl, hls⟩

theorem operator?_lexemes {s : TokenStream} {op : Operator} {ls : List Lexeme}
    (h : s.lexemes = .symbol op.symbol :: ls) :
    ∃ s', s.operator? = .ok (some (op.written, s')) ∧ s'.lexemes = ls := by
  obtain ⟨previous, ⟨lexeme, start, stop⟩, rest, rfl, hl, hls⟩ := exists_of_lexemes h
  obtain rfl : lexeme = .symbol op.symbol := hl
  exact ⟨_, by cases op <;> rfl, hls⟩

/-- The lexemes that may follow a whole expression. -/
def Stops (ls : List Lexeme) : Prop := ∀ l ∈ ls.head?, l = .symbol .closeParen ∨
  l = .symbol .closeBrace ∨ l = .symbol .comma ∨ l = .symbol .semicolon ∨ l = .keyword .elseWord

theorem Stops.operator? {s : TokenStream} (h : Stops s.lexemes) : s.operator? = .ok none := by
  obtain ⟨previous, rest⟩ := s
  cases rest with
  | nil => rfl
  | cons token rest =>
    obtain ⟨lexeme, start, stop⟩ := token
    rcases h lexeme rfl with rfl | rfl | rfl | rfl | rfl <;> rfl

/-- A reader takes some lexemes before others as an expression. -/
def Takes (read : ExprReader) (ls rest : List Lexeme) (e : Expr) : Prop :=
  ∀ s : TokenStream, s.lexemes = ls ++ rest →
    ∃ s', read s = .ok (some (e, s')) ∧ s'.lexemes = rest

theorem Takes.demandExpr {read : ExprReader} {ls rest : List Lexeme} {e : Expr}
    (h : Takes read ls rest e) {s : TokenStream} (hs : s.lexemes = ls ++ rest) :
    ∃ s', s.demandExpr read = .ok (e, s') ∧ s'.lexemes = rest := by
  obtain ⟨s', hread, hrest⟩ := h s hs
  exact ⟨s', demandExpr_ok.2 hread, hrest⟩

/-- A reader takes some lexemes as expressions with separators, up to a closing bracket before
others. -/
def TakesList (read : ExprReader) (separator closer : Symbol) (ls rest : List Lexeme)
    (es : List Expr) : Prop :=
  ∀ s : TokenStream, s.lexemes = ls ++ .symbol closer :: rest →
    ∃ s', s.bracketed read separator closer = .ok (es, s') ∧ s'.lexemes = rest

/-! ### Chains -/

/-- Operators and operands that a reader takes one after another. -/
inductive TailReads (read : ExprReader) :
    TokenStream → List (Operator × Expr) → TokenStream → Prop where
  | nil {s : TokenStream} : TailReads read s [] s
  | cons {s s₁ s₂ s₃ : TokenStream} {op : Operator} {e : Expr} {tail : List (Operator × Expr)}
      (hop : s.operator? = .ok (some (op, s₁))) (he : read s₁ = .ok (some (e, s₂)))
      (hlt : s₂.lexemes.length < s.lexemes.length) (h : TailReads read s₂ tail s₃) :
      TailReads read s ((op, e) :: tail) s₃

theorem TailReads.append {read : ExprReader} {s s₁ s₂ : TokenStream}
    {tail others : List (Operator × Expr)} (h : TailReads read s tail s₁)
    (hothers : TailReads read s₁ others s₂) : TailReads read s (tail ++ others) s₂ := by
  induction h with
  | nil => exact hothers
  | cons hop he hlt h ih => exact .cons hop he hlt (ih hothers)

theorem TailReads.chainTail {read : ExprReader} {s s' : TokenStream}
    {tail : List (Operator × Expr)} (h : TailReads read s tail s') (hstop : s'.operator? = .ok none)
    (count : Nat) (hcount : s.lexemes.length ≤ count) : chainTail read count s = .ok (tail, s') := by
  induction h generalizing count with
  | nil =>
    cases count with
    | zero => rfl
    | succ count => exact bind_eq_ok.2 ⟨none, hstop, rfl⟩
  | cons hop he hlt h ih =>
    obtain ⟨count, rfl⟩ : ∃ k, count = k + 1 := ⟨count - 1, by omega⟩
    have htail := ih hstop count (by omega)
    refine bind_eq_ok.2 ⟨_, hop, bind_eq_ok.2 ⟨_, demandExpr_ok.2 he, ?_⟩⟩
    exact bind_eq_ok.2 ⟨_, htail, rfl⟩

/-- Some lexemes before others are read as the operands and operators of a chain. -/
def TakesChain (depth : Nat) (ls rest : List Lexeme) (head : Expr)
    (tail : List (Operator × Expr)) : Prop :=
  ∀ s : TokenStream, s.lexemes = ls ++ rest → ∃ s₁ s₂,
    primary (expression depth) s = .ok (some (head, s₁)) ∧
      TailReads (primary (expression depth)) s₁ tail s₂ ∧ s₂.lexemes = rest

theorem Takes.chain {depth : Nat} {ls rest : List Lexeme} {e : Expr}
    (h : Takes (primary (expression depth)) ls rest e) : TakesChain depth ls rest e [] := by
  intro s hs
  obtain ⟨s', hread, hrest⟩ := h s hs
  exact ⟨s', s', hread, .nil, hrest⟩

/-- A chain is read as what it groups to, where no operator comes after it. -/
theorem TakesChain.expression_of_stop {depth : Nat} {ls rest : List Lexeme} {head : Expr}
    {tail : List (Operator × Expr)} (h : TakesChain depth ls rest head tail)
    (hstop : ∀ s : TokenStream, s.lexemes = rest → s.operator? = .ok none) :
    Takes (expression (depth + 1)) ls rest (Chain.toExpr ⟨head, tail⟩) := by
  intro s hs
  obtain ⟨s₁, s₂, hhead, htail, hs₂⟩ := h s hs
  have hread := htail.chainTail (hstop s₂ hs₂) _ (Nat.le_of_eq (List.length_map _))
  exact ⟨s₂, bind_eq_ok.2 ⟨_, hhead, bind_eq_ok.2 ⟨_, hread, rfl⟩⟩, hs₂⟩

theorem TakesChain.expression {depth : Nat} {ls rest : List Lexeme} {head : Expr}
    {tail : List (Operator × Expr)} (h : TakesChain depth ls rest head tail) (hrest : Stops rest) :
    Takes (expression (depth + 1)) ls rest (Chain.toExpr ⟨head, tail⟩) :=
  h.expression_of_stop fun s hs => Stops.operator? (by rw [hs]; exact hrest)

/-! ### Lists -/

/-- A reader takes an expression wherever its text may stand before a bracket or a separator. -/
def TakesItem (read : ExprReader) (e : Expr) : Prop :=
  ∀ rest : List Lexeme, Stops rest → rest.head? ≠ some (.keyword .elseWord) →
    Takes read e.lexemes rest e.normal

theorem length_following (separator : Symbol) (es : List Expr) :
    es.length ≤ (following separator es).length := by
  induction es with
  | nil => exact Nat.le_refl _
  | cons e es ih =>
    rw [following, List.length_cons, List.length_append, List.length_cons]
    omega

theorem length_separated (separator : Symbol) {es : List Expr} (h : ∀ e ∈ es, Opens e.lexemes) :
    es.length ≤ (separated separator es).length := by
  cases es with
  | nil => exact Nat.le_refl _
  | cons e es =>
    have hpos := List.length_pos_of_ne_nil (h e List.mem_cons_self).ne_nil
    have hle := length_following separator es
    rw [separated, List.length_append, List.length_cons]
    omega

theorem Stops.nil : Stops [] := by
  rintro _ ⟨⟩

theorem stops_following {separator : Symbol}
    (hseparator : separator = .comma ∨ separator = .semicolon) (es : List Expr)
    {rest : List Lexeme} (hrest : Stops rest)
    (helse : rest.head? ≠ some (.keyword .elseWord)) :
    Stops (following separator es ++ rest) ∧
      (following separator es ++ rest).head? ≠ some (.keyword .elseWord) := by
  cases es with
  | nil => exact ⟨hrest, helse⟩
  | cons e es =>
    have helse' : (following separator (e :: es) ++ rest).head? ≠ some (.keyword .elseWord) := by
      simp [following]
    refine ⟨?_, helse'⟩
    rintro _ ⟨⟩
    rcases hseparator with rfl | rfl <;> simp

theorem items_lexemes {read : ExprReader} {separator closer : Symbol}
    (hseparator : separator = .comma ∨ separator = .semicolon)
    (hcloser : closer = .closeParen ∨ closer = .closeBrace) {es : List Expr}
    (h : ∀ e ∈ es, TakesItem read e) (hopens : ∀ e ∈ es, Opens e.lexemes) {rest : List Lexeme}
    (s : TokenStream) (count : Nat) (hcount : es.length ≤ count)
    (hs : s.lexemes = separated separator es ++ .symbol closer :: rest) :
    ∃ s', items read separator closer count s = .ok (normalAll es, s') ∧
      s'.lexemes = .symbol closer :: rest := by
  induction es generalizing s count with
  | nil =>
    obtain ⟨s', hclose, -⟩ := take?_lexemes hs
    refine ⟨s, ?_, hs⟩
    cases count with
    | zero => rw [items, hclose]; rfl
    | succ count => rw [items, hclose]; rfl
  | cons e es ih =>
    have hitem := h e List.mem_cons_self
    have hothers : ∀ e ∈ es, TakesItem read e := fun e he => h e (List.mem_cons_of_mem _ he)
    have hopen := hopens e List.mem_cons_self
    have hopens' : ∀ e ∈ es, Opens e.lexemes := fun e he => hopens e (List.mem_cons_of_mem _ he)
    obtain ⟨count, rfl⟩ := Nat.exists_eq_succ_of_ne_zero (Nat.ne_zero_of_lt hcount)
    have hcount' : es.length ≤ count := Nat.le_of_succ_le_succ hcount
    have hstops : Stops (.symbol closer :: rest) := by
      rintro _ ⟨⟩
      rcases hcloser with rfl | rfl <;> simp
    obtain ⟨hstops', helse⟩ := stops_following hseparator es hstops (by simp)
    rw [separated, List.append_assoc] at hs
    obtain ⟨s₁, he, hs₁⟩ := (hitem _ hstops' helse).demandExpr hs
    have hclose : s.take? closer = none := by
      apply take?_eq_none
      rw [hs]
      exact hopen.head_ne hcloser _
    rw [items, hclose, normalAll]
    cases es with
    | nil =>
      have hnone : s₁.take? separator = none := by
        apply take?_eq_none
        rw [hs₁]
        rcases hseparator with rfl | rfl <;> rcases hcloser with rfl | rfl <;> simp [following]
      refine ⟨s₁, bind_eq_ok.2 ⟨_, he, ?_⟩, hs₁⟩
      dsimp only
      rw [hnone]
      rfl
    | cons e' es =>
      obtain ⟨s₂, htake, hs₂⟩ := take?_lexemes hs₁
      obtain ⟨s₃, hitems, hs₃⟩ := ih hothers hopens' s₂ count hcount' hs₂
      refine ⟨s₃, bind_eq_ok.2 ⟨_, he, ?_⟩, hs₃⟩
      dsimp only
      rw [htake]
      exact bind_eq_ok.2 ⟨_, hitems, rfl⟩

theorem bracketed_lexemes {read : ExprReader} {separator closer : Symbol}
    (hseparator : separator = .comma ∨ separator = .semicolon)
    (hcloser : closer = .closeParen ∨ closer = .closeBrace) {es : List Expr}
    (h : ∀ e ∈ es, TakesItem read e) (hopens : ∀ e ∈ es, Opens e.lexemes) (rest : List Lexeme) :
    TakesList read separator closer (separated separator es) rest (normalAll es) := by
  intro s hs
  have hcount : es.length ≤ s.rest.length := by
    have hle := length_separated separator hopens
    have heq := congrArg List.length hs
    rw [lexemes, List.length_map, List.length_append] at heq
    omega
  obtain ⟨s₁, hitems, hs₁⟩ := items_lexemes hseparator hcloser h hopens s _ hcount hs
  obtain ⟨s₂, hclose, hs₂⟩ := demand_lexemes hs₁
  exact ⟨s₂, bind_eq_ok.2 ⟨_, hitems, bind_eq_ok.2 ⟨_, hclose, rfl⟩⟩, hs₂⟩

theorem statements_lexemes {read : ExprReader} {e : Expr} {es : List Expr}
    (h : ∀ e' ∈ e :: es, TakesItem read e') (s : TokenStream) (count : Nat)
    (hcount : (e :: es).length ≤ count) (hs : s.lexemes = separated .semicolon (e :: es)) :
    ∃ s', statements read count s = .ok (normalAll (e :: es), s') ∧ s'.lexemes = [] := by
  induction es generalizing e s count with
  | nil =>
    obtain ⟨count, rfl⟩ := Nat.exists_eq_succ_of_ne_zero (Nat.ne_zero_of_lt hcount)
    rw [separated, following] at hs
    obtain ⟨s₁, he, hs₁⟩ := h e List.mem_cons_self [] .nil (by simp) s hs
    have hnone : s₁.take? .semicolon = none := by
      apply take?_eq_none
      rw [hs₁]
      simp
    refine ⟨s₁, bind_eq_ok.2 ⟨_, he, ?_⟩, hs₁⟩
    dsimp only
    rw [hnone]
    rfl
  | cons e' es ih =>
    have hothers : ∀ e ∈ e' :: es, TakesItem read e := fun e he => h e (List.mem_cons_of_mem _ he)
    obtain ⟨count, rfl⟩ := Nat.exists_eq_succ_of_ne_zero (Nat.ne_zero_of_lt hcount)
    have hcount' : (e' :: es).length ≤ count := Nat.le_of_succ_le_succ hcount
    obtain ⟨hstops, helse⟩ := stops_following (.inr rfl) (e' :: es) .nil (by simp)
    rw [List.append_nil] at hstops helse
    obtain ⟨s₁, he, hs₁⟩ := h e List.mem_cons_self _ hstops helse s hs
    obtain ⟨s₂, htake, hs₂⟩ := take?_lexemes hs₁
    obtain ⟨s₃, hstatements, hs₃⟩ := ih hothers s₂ count hcount' hs₂
    refine ⟨s₃, bind_eq_ok.2 ⟨_, he, ?_⟩, hs₃⟩
    dsimp only
    rw [htake]
    exact bind_eq_ok.2 ⟨_, hstatements, rfl⟩

theorem nameLexemes_eq (params : List String) : nameLexemes params =
    listed .comma false (params.map fun name => [.identifier name]) := by
  induction params with
  | nil => rfl
  | cons p params ih =>
    cases params with
    | nil => rfl
    | cons p' params => exact congrArg (.identifier p :: .symbol .comma :: ·) ih

/-- Names before a closing parenthesis are read as they are listed. -/
theorem names_listed {params : List String} {trailing : Bool} {tokens : List Token}
    {rest : List Lexeme} (h : tokens.map (·.lexeme) =
      listed .comma trailing (params.map fun name => [.identifier name]) ++
        .symbol .closeParen :: rest) :
    (names tokens).1 = params ∧
      (names tokens).2.map (·.lexeme) = .symbol .closeParen :: rest := by
  induction params generalizing tokens with
  | nil =>
    obtain ⟨⟨lexeme, start, stop⟩, tokens, rfl, hl, -⟩ := List.map_eq_cons_iff.1 h
    obtain rfl : lexeme = _ := hl
    exact ⟨rfl, h⟩
  | cons p params ih =>
    -- After a name and a comma the names go on.
    have hcomma {others : List Lexeme} (hothers : tokens.map (·.lexeme) =
        .identifier p :: .symbol .comma :: others) : ∃ tokens', tokens'.map (·.lexeme) = others ∧
        names tokens = (p :: (names tokens').1, (names tokens').2) := by
      obtain ⟨⟨lexeme, start, stop⟩, tokens, rfl, hl, hls⟩ := List.map_eq_cons_iff.1 hothers
      obtain ⟨⟨lexeme', start', stop'⟩, tokens, rfl, hl', hls'⟩ := List.map_eq_cons_iff.1 hls
      obtain rfl : lexeme = _ := hl
      obtain rfl : lexeme' = _ := hl'
      exact ⟨tokens, hls', rfl⟩
    cases params with
    | nil =>
      cases trailing with
      | false =>
        obtain ⟨⟨lexeme, start, stop⟩, tokens, rfl, hl, hls⟩ := List.map_eq_cons_iff.1 h
        obtain ⟨⟨lexeme', start', stop'⟩, tokens, rfl, hl', -⟩ := List.map_eq_cons_iff.1 hls
        obtain rfl : lexeme = _ := hl
        obtain rfl : lexeme' = _ := hl'
        exact ⟨rfl, hls⟩
      | true =>
        obtain ⟨tokens', htokens, hnames⟩ := hcomma h
        obtain ⟨hparams, hrest⟩ := ih htokens
        rw [hnames, hparams]
        exact ⟨rfl, hrest⟩
    | cons p' params =>
      obtain ⟨tokens', htokens, hnames⟩ := hcomma h
      obtain ⟨hparams, hrest⟩ := ih htokens
      rw [hnames, hparams]
      exact ⟨rfl, hrest⟩

theorem closureHead?_listed {s : TokenStream} {params : List String} {trailing : Bool}
    {rest : List Lexeme} (h : s.lexemes =
      listed .comma trailing (params.map fun name => [.identifier name]) ++
        .symbol .closeParen :: .symbol .arrow :: rest) :
    ∃ s', s.closureHead? = some (params, s') ∧ s'.lexemes = rest := by
  obtain ⟨hparams, hrest⟩ := names_listed h
  obtain ⟨⟨lexeme, start, stop⟩, tokens, heq, hl, hls⟩ := List.map_eq_cons_iff.1 hrest
  obtain ⟨⟨lexeme', start', stop'⟩, tokens, rfl, hl', hls'⟩ := List.map_eq_cons_iff.1 hls
  obtain rfl : lexeme = _ := hl
  obtain rfl : lexeme' = _ := hl'
  refine ⟨⟨some ⟨.symbol .arrow, start', stop'⟩, tokens⟩, ?_, hls'⟩
  rw [closureHead?, ← hparams]
  dsimp only
  rw [heq]

/-- After an opening parenthesis, lexemes that make it that of a closure. -/
def OpensClosure (ls : List Lexeme) : Prop :=
  ∃ (params : List String) (trailing : Bool) (rest : List Lexeme),
    ls = listed .comma trailing (params.map fun name => [.identifier name]) ++
      .symbol .closeParen :: .symbol .arrow :: rest

theorem closureHead?_of_not_opens {s : TokenStream} (h : ¬ OpensClosure s.lexemes) :
    s.closureHead? = none := by
  cases hhead : s.closureHead? with
  | none => rfl
  | some found =>
    obtain ⟨params, s'⟩ := found
    obtain ⟨trailing, hs⟩ := closureHead?_sound hhead
    exact absurd ⟨params, trailing, _, hs⟩ h

/-- A parenthesis before an expression that no arrow follows opens no closure. -/
theorem not_opensClosure {ls rest : List Lexeme} (hopens : Opens ls)
    (hrest : rest.head? ≠ some (.symbol .arrow)) :
    ¬ OpensClosure (ls ++ .symbol .closeParen :: rest) := by
  rintro ⟨params, trailing, others, heq⟩
  exact hopens.ne_params hrest trailing params others heq

/-! ### Readers -/

section Readers

variable {read : ExprReader} {s : TokenStream} {ls ls₁ ls₂ rest : List Lexeme}
  {e test consequent : Expr}

theorem parens_lexemes (he : Takes read ls (.symbol .closeParen :: rest) e)
    (hclosure : ¬ OpensClosure (ls ++ .symbol .closeParen :: rest))
    (hs : s.lexemes = ls ++ .symbol .closeParen :: rest) :
    ∃ s', s.parenthesis read = .ok (e, s') ∧ s'.lexemes = rest := by
  obtain ⟨s₁, he₁, hs₁⟩ := he.demandExpr hs
  obtain ⟨s₂, hclose₂, hs₂⟩ := demand_lexemes hs₁
  refine ⟨s₂, ?_, hs₂⟩
  rw [parenthesis, closureHead?_of_not_opens (by rw [hs]; exact hclosure)]
  exact bind_eq_ok.2 ⟨_, he₁, bind_eq_ok.2 ⟨_, hclose₂, rfl⟩⟩

theorem closure_lexemes {params : List String} (he : Takes read ls rest e)
    (hs : s.lexemes = nameLexemes params ++
      .symbol .closeParen :: .symbol .arrow :: (ls ++ rest)) :
    ∃ s', s.parenthesis read = .ok (.closure params e, s') ∧ s'.lexemes = rest := by
  rw [nameLexemes_eq] at hs
  obtain ⟨s₁, hhead₁, hs₁⟩ := closureHead?_listed hs
  obtain ⟨s₂, he₂, hs₂⟩ := he.demandExpr hs₁
  refine ⟨s₂, ?_, hs₂⟩
  rw [parenthesis, hhead₁]
  exact bind_eq_ok.2 ⟨_, he₂, rfl⟩

/-- What a condition is depends on the token after its consequent. -/
theorem conditional_lexemes
    (htest : Takes read ls₁ (.symbol .closeParen :: (ls₂ ++ rest)) test)
    (hconsequent : Takes read ls₂ rest consequent)
    (hs : s.lexemes = .symbol .openParen :: (ls₁ ++ .symbol .closeParen :: (ls₂ ++ rest))) :
    ∃ s', s'.lexemes = rest ∧
      (s'.takeWord? .elseWord = none → s.conditional read = .ok (.ifThen test consequent, s')) ∧
      ∀ {s₁ s₂ : TokenStream} {alternate : Expr}, s'.takeWord? .elseWord = some s₁ →
        s₁.demandExpr read = .ok (alternate, s₂) →
          s.conditional read = .ok (.ifElse test consequent alternate, s₂) := by
  obtain ⟨s₁, hopen₁, hs₁⟩ := demand_lexemes hs
  obtain ⟨s₂, htest₂, hs₂⟩ := htest.demandExpr hs₁
  obtain ⟨s₃, hclose₃, hs₃⟩ := demand_lexemes hs₂
  obtain ⟨s₄, hconsequent₄, hs₄⟩ := hconsequent.demandExpr hs₃
  refine ⟨s₄, hs₄, fun hnone => ?_, fun helse halternate => ?_⟩
  · refine bind_eq_ok.2 ⟨_, hopen₁, bind_eq_ok.2 ⟨_, htest₂, bind_eq_ok.2 ⟨_, hclose₃, ?_⟩⟩⟩
    refine bind_eq_ok.2 ⟨_, hconsequent₄, ?_⟩
    dsimp only
    rw [hnone]
    rfl
  · refine bind_eq_ok.2 ⟨_, hopen₁, bind_eq_ok.2 ⟨_, htest₂, bind_eq_ok.2 ⟨_, hclose₃, ?_⟩⟩⟩
    refine bind_eq_ok.2 ⟨_, hconsequent₄, ?_⟩
    dsimp only
    rw [helse]
    exact bind_eq_ok.2 ⟨_, halternate, rfl⟩

theorem assignment_lexemes {name : String} (he : Takes read ls rest e)
    (hs : s.lexemes = .identifier name :: .symbol .assign :: (ls ++ rest)) :
    ∃ s', s.assignment read = .ok (.assign name e, s') ∧ s'.lexemes = rest := by
  obtain ⟨s₁, hname₁, hs₁⟩ := demandName_lexemes hs
  obtain ⟨s₂, hassign₂, hs₂⟩ := demand_lexemes hs₁
  obtain ⟨s₃, he₃, hs₃⟩ := he.demandExpr hs₂
  refine ⟨s₃, ?_, hs₃⟩
  exact bind_eq_ok.2 ⟨_, hname₁, bind_eq_ok.2 ⟨_, hassign₂, bind_eq_ok.2 ⟨_, he₃, rfl⟩⟩⟩

theorem random_lexemes (hs : s.lexemes = .symbol .openParen :: .symbol .closeParen :: rest) :
    ∃ s', s.random = .ok (.random, s') ∧ s'.lexemes = rest := by
  obtain ⟨s₁, hopen₁, hs₁⟩ := demand_lexemes hs
  obtain ⟨s₂, hclose₂, hs₂⟩ := demand_lexemes hs₁
  exact ⟨s₂, bind_eq_ok.2 ⟨_, hopen₁, bind_eq_ok.2 ⟨_, hclose₂, rfl⟩⟩, hs₂⟩

theorem operand_lexemes {f : Builtin} (he : Takes read ls (.symbol .closeParen :: rest) e)
    (hs : s.lexemes = .symbol .openParen :: (ls ++ .symbol .closeParen :: rest)) :
    ∃ s', s.operand read f = .ok (.builtin f e, s') ∧ s'.lexemes = rest := by
  obtain ⟨s₁, hopen₁, hs₁⟩ := demand_lexemes hs
  obtain ⟨s₂, he₂, hs₂⟩ := he.demandExpr hs₁
  obtain ⟨s₃, hclose₃, hs₃⟩ := demand_lexemes hs₂
  refine ⟨s₃, ?_, hs₃⟩
  exact bind_eq_ok.2 ⟨_, hopen₁, bind_eq_ok.2 ⟨_, he₂, bind_eq_ok.2 ⟨_, hclose₃, rfl⟩⟩⟩

theorem reference_lexemes {name : String} (hrest : rest.head? ≠ some (.symbol .openParen))
    (hs : s.lexemes = rest) :
    ∃ s', s.named read name = .ok (.reference name, s') ∧ s'.lexemes = rest := by
  refine ⟨s, ?_, hs⟩
  rw [named, take?_eq_none (by rw [hs]; exact hrest)]
  rfl

theorem call_lexemes {name : String} {es : List Expr}
    (h : TakesList read .comma .closeParen ls rest es)
    (hs : s.lexemes = .symbol .openParen :: (ls ++ .symbol .closeParen :: rest)) :
    ∃ s', s.named read name = .ok (.call name es, s') ∧ s'.lexemes = rest := by
  obtain ⟨s₁, hopen₁, hs₁⟩ := take?_lexemes hs
  obtain ⟨s₂, hes₂, hs₂⟩ := h s₁ hs₁
  refine ⟨s₂, ?_, hs₂⟩
  rw [named, hopen₁]
  exact bind_eq_ok.2 ⟨_, hes₂, rfl⟩

end Readers

/-! ### Operands -/

theorem stops_closeParen {rest : List Lexeme} : Stops (.symbol .closeParen :: rest) := by
  rintro _ ⟨⟩
  exact .inl rfl

/-- Lexemes that do not change what the operand before them is. -/
def Continues (ls : List Lexeme) : Prop :=
  ls.head? ≠ some (.symbol .openParen) ∧ ls.head? ≠ some (.symbol .arrow)

theorem Stops.continues {ls : List Lexeme} (h : Stops ls) : Continues ls := by
  constructor
  · intro hl
    rcases h _ hl with heq | heq | heq | heq | heq <;> cases heq
  · intro hl
    rcases h _ hl with heq | heq | heq | heq | heq <;> cases heq

/-- What is read of an expression at a depth that its text nests to. -/
def ReadsBack (e : Expr) : Prop :=
  ∀ (depth : Nat) (rest : List Lexeme), e.nesting ≤ depth + 1 → Continues rest →
    (e.isOpenEnded = true → Stops rest ∧ rest.head? ≠ some (.keyword .elseWord)) →
    TakesChain depth e.lexemes rest e.chainHead e.chainTail

theorem nesting_pos {e : Expr} (h : e.Printable) : 0 < e.nesting := by
  induction h with
  | binary hleft hright ih₁ ih₂ =>
    rw [nesting]
    omega
  | _ =>
    rw [nesting]
    omega

section Operands

variable {e : Expr} (h : e.Printable) (hreads : ReadsBack e)
include h hreads

/-- An expression is read whole where it stops. -/
theorem takes_expression {depth : Nat} {rest : List Lexeme} (hdepth : e.nesting ≤ depth)
    (hrest : Stops rest) (helse : e.isOpenEnded = true → rest.head? ≠ some (.keyword .elseWord)) :
    Takes (expression depth) e.lexemes rest e.normal := by
  obtain ⟨depth, rfl⟩ : ∃ k, depth = k + 1 :=
    ⟨depth - 1, by have := nesting_pos h; omega⟩
  rw [← h.toExpr_chain]
  exact (hreads _ _ hdepth hrest.continues fun hopen => ⟨hrest, helse hopen⟩).expression hrest

/-- An expression is read up to a closing parenthesis. -/
theorem takes_closed {depth : Nat} (hdepth : e.nesting ≤ depth) (rest : List Lexeme) :
    Takes (expression depth) e.lexemes (.symbol .closeParen :: rest) e.normal :=
  takes_expression h hreads hdepth stops_closeParen fun _ => by simp

/-- An expression in parentheses is an operand. -/
theorem takes_parens {depth : Nat} {rest : List Lexeme} (hdepth : e.nesting ≤ depth)
    (hrest : Continues rest) : Takes (primary (expression depth)) (inParens true e.lexemes) rest
      e.normal := by
  intro s hs
  rw [inParens_append, if_pos rfl] at hs
  obtain ⟨previous, ⟨lexeme, start, stop⟩, tokens, rfl, hl, hls⟩ := exists_of_lexemes hs
  obtain rfl : lexeme = _ := hl
  obtain ⟨s', hread, hs'⟩ :=
    parens_lexemes (takes_closed h hreads hdepth rest) (not_opensClosure h.opens hrest.2) hls
  exact ⟨s', map_eq_ok.2 ⟨_, hread, rfl⟩, hs'⟩

/-- An operand is read as it stands or in parentheses. -/
theorem takes_operand {depth least : Nat} {rest : List Lexeme}
    (hdepth : e.nesting + (e.needsParens least).toNat ≤ depth + 1) (hrest : Continues rest) :
    TakesChain depth (inParens (e.needsParens least) e.lexemes) rest (operandHead least e)
      (operandTail least e) := by
  unfold operandHead operandTail
  cases hparens : e.needsParens least with
  | true =>
    rw [hparens] at hdepth
    exact (takes_parens h hreads (Nat.le_of_succ_le_succ hdepth) hrest).chain
  | false =>
    rw [hparens] at hdepth
    refine hreads _ _ hdepth hrest fun hopen => ?_
    rw [needsParens, hopen] at hparens
    cases hparens

/-- A consequent is read as it stands or in parentheses. -/
theorem takes_inParens {depth : Nat} {needed : Bool} {rest : List Lexeme}
    (hdepth : e.nesting + needed.toNat ≤ depth) (hrest : Stops rest)
    (helse : needed = false → e.isOpenEnded = true → rest.head? ≠ some (.keyword .elseWord)) :
    Takes (expression depth) (inParens needed e.lexemes) rest e.normal := by
  cases needed with
  | true =>
    obtain ⟨depth, rfl⟩ : ∃ k, depth = k + 1 := ⟨depth - 1, by rw [Bool.toNat_true] at hdepth; omega⟩
    exact (takes_parens h hreads (Nat.le_of_succ_le_succ hdepth) hrest.continues).chain.expression
      hrest
  | false => exact takes_expression h hreads hdepth hrest (helse rfl)

end Operands

theorem takesItem {e : Expr} (h : e.Printable) (hreads : ReadsBack e) {depth : Nat}
    (hdepth : e.nesting ≤ depth) : TakesItem (expression depth) e :=
  fun _ hrest helse => takes_expression h hreads hdepth hrest fun _ => helse

/-- The first lexeme of an operand tells how the others are read. -/
theorem takes_cons {read : ExprReader} {l : Lexeme} {ls rest : List Lexeme} {e : Expr}
    (h : ∀ (previous : Option Token) (start stop : Location) (tokens : List Token),
      lexemes ⟨some ⟨l, start, stop⟩, tokens⟩ = ls ++ rest → ∃ s',
        read ⟨previous, ⟨l, start, stop⟩ :: tokens⟩ = .ok (some (e, s')) ∧ s'.lexemes = rest) :
    Takes read (l :: ls) rest e := by
  intro s hs
  obtain ⟨previous, ⟨lexeme, start, stop⟩, tokens, rfl, hl, hls⟩ := exists_of_lexemes hs
  obtain rfl : lexeme = l := hl
  exact h previous start stop tokens hls

theorem takesChain_cons {depth : Nat} {l : Lexeme} {ls rest : List Lexeme} {e : Expr}
    (h : ∀ (previous : Option Token) (start stop : Location) (tokens : List Token),
      lexemes ⟨some ⟨l, start, stop⟩, tokens⟩ = ls ++ rest → ∃ s',
        primary (expression depth) ⟨previous, ⟨l, start, stop⟩ :: tokens⟩ = .ok (some (e, s')) ∧
          s'.lexemes = rest) :
    TakesChain depth (l :: ls) rest e [] := (takes_cons h).chain

/-- Tokens with the lexemes of an expression are read as its normal form. -/
theorem readsBack {e : Expr} (h : e.Printable) : ReadsBack e := by
  induction h with
  | literal h =>
    intro depth rest hdepth hrest hopen
    exact takesChain_cons fun previous start stop tokens hls => ⟨_, rfl, hls⟩
  | @reference name h =>
    intro depth rest hdepth hrest hopen
    refine takesChain_cons fun previous start stop tokens hls => ?_
    obtain ⟨s', hread, hs'⟩ := reference_lexemes hrest.1 hls
    exact ⟨s', map_eq_ok.2 ⟨_, hread, rfl⟩, hs'⟩
  | @block body h ih =>
    intro depth rest hdepth hrest hopen
    rw [nesting, Nat.add_le_add_iff_right, nestingAll_le] at hdepth
    rw [Expr.lexemes, List.cons_append]
    refine takesChain_cons fun previous start stop tokens hls => ?_
    simp only [List.append_assoc, List.cons_append, List.nil_append] at hls
    obtain ⟨s', hbody, hs'⟩ := bracketed_lexemes (.inr rfl) (.inr rfl)
      (fun e he => takesItem (h e he) (ih e he) (hdepth e he)) (fun e he => (h e he).opens) _ _ hls
    exact ⟨s', bind_eq_ok.2 ⟨_, hbody, rfl⟩, hs'⟩
  | @closure params body hparams h ih =>
    intro depth rest hdepth hrest hopen
    obtain ⟨hstops, helse⟩ := hopen rfl
    rw [nesting, Nat.add_le_add_iff_right] at hdepth
    rw [Expr.lexemes, List.cons_append]
    refine takesChain_cons fun previous start stop tokens hls => ?_
    simp only [List.append_assoc, List.cons_append] at hls
    have hbody := takes_expression h ih hdepth hstops fun _ => helse
    obtain ⟨s', hread, hs'⟩ := closure_lexemes hbody hls
    exact ⟨s', map_eq_ok.2 ⟨_, hread, rfl⟩, hs'⟩
  | @ifThen test consequent htest hconsequent ih₁ ih₂ =>
    intro depth rest hdepth hrest hopen
    obtain ⟨hstops, helse⟩ := hopen rfl
    rw [nesting, Nat.add_le_add_iff_right, Nat.max_le] at hdepth
    rw [Expr.lexemes, List.cons_append]
    refine takesChain_cons fun previous start stop tokens hls => ?_
    simp only [List.append_assoc, List.cons_append] at hls
    obtain ⟨s', hs', hread, -⟩ := conditional_lexemes (takes_closed htest ih₁ hdepth.1 _)
      (takes_inParens hconsequent ih₂ hdepth.2 hstops fun _ _ => helse) hls
    have hnone : s'.takeWord? .elseWord = none := takeWord?_eq_none (by rw [hs']; exact helse)
    exact ⟨s', map_eq_ok.2 ⟨_, hread hnone, rfl⟩, hs'⟩
  | @ifElse test consequent alternate htest hconsequent halternate ih₁ ih₂ ih₃ =>
    intro depth rest hdepth hrest hopen
    obtain ⟨hstops, helse⟩ := hopen rfl
    rw [nesting, Nat.add_le_add_iff_right, Nat.max_le, Nat.max_le] at hdepth
    simp only [Expr.lexemes, List.cons_append]
    refine takesChain_cons fun previous start stop tokens hls => ?_
    simp only [List.append_assoc, List.cons_append] at hls
    have hstops₂ : Stops (.keyword .elseWord :: (alternate.lexemes ++ rest)) := by
      rintro _ ⟨⟩
      simp
    -- An `else` after a consequent that is not in parentheses is not taken in by it.
    have hconsequent₂ := takes_inParens hconsequent ih₂ hdepth.1.2 hstops₂
      fun hno hyes => by simp [needsParens, hyes] at hno
    obtain ⟨s₁, hs₁, -, hread⟩ :=
      conditional_lexemes (takes_closed htest ih₁ hdepth.1.1 _) hconsequent₂ hls
    obtain ⟨s₂, helse₂, hs₂⟩ := takeWord?_lexemes hs₁
    obtain ⟨s₃, halternate₃, hs₃⟩ :=
      (takes_expression halternate ih₃ hdepth.2 hstops fun _ => helse).demandExpr hs₂
    exact ⟨s₃, map_eq_ok.2 ⟨_, hread helse₂ halternate₃, rfl⟩, hs₃⟩
  | @assign name value hname h ih =>
    intro depth rest hdepth hrest hopen
    obtain ⟨hstops, helse⟩ := hopen rfl
    rw [nesting, Nat.add_le_add_iff_right] at hdepth
    refine takesChain_cons fun previous start stop tokens hls => ?_
    have hvalue := takes_expression h ih hdepth hstops fun _ => helse
    obtain ⟨s', hread, hs'⟩ := assignment_lexemes hvalue hls
    exact ⟨s', map_eq_ok.2 ⟨_, hread, rfl⟩, hs'⟩
  | @binary left op right hleft hright ih₁ ih₂ =>
    intro depth rest hdepth hrest hopen
    rw [nesting, Nat.max_le] at hdepth
    intro s hs
    rw [Expr.lexemes, List.append_assoc, List.cons_append] at hs
    have hcontinues : Continues (.symbol op.symbol ::
        (inParens (right.needsParens (op.precedence + 1)) right.lexemes ++ rest)) := by
      constructor <;> cases op <;> simp [Operator.symbol]
    obtain ⟨s₁, s₂, hhead₁, htail₁, hs₂⟩ := takes_operand hleft ih₁ hdepth.1 hcontinues s hs
    obtain ⟨s₃, hop, hs₃⟩ := operator?_lexemes hs₂
    obtain ⟨s₄, s₅, hhead₂, htail₂, hs₅⟩ := takes_operand hright ih₂ hdepth.2 hrest s₃ hs₃
    obtain ⟨taken, htaken, -⟩ := primary_sound (expression_sound depth) hhead₂
    refine ⟨s₁, s₅, hhead₁, htail₁.append (.cons hop hhead₂ ?_ htail₂), hs₅⟩
    rw [hs₂, ← hs₃, htaken, List.length_cons, List.length_append]
    omega
  | random =>
    intro depth rest hdepth hrest hopen
    refine takesChain_cons fun previous start stop tokens hls => ?_
    obtain ⟨s', hread, hs'⟩ := random_lexemes hls
    exact ⟨s', map_eq_ok.2 ⟨_, hread, rfl⟩, hs'⟩
  | @builtin f argument h ih =>
    intro depth rest hdepth hrest hopen
    rw [nesting, Nat.add_le_add_iff_right] at hdepth
    rw [Expr.lexemes, List.cons_append]
    refine takesChain_cons fun previous start stop tokens hls => ?_
    simp only [List.append_assoc, List.cons_append, List.nil_append] at hls
    obtain ⟨s', hread, hs'⟩ := operand_lexemes (f := f) (takes_closed h ih hdepth rest) hls
    refine ⟨s', ?_, hs'⟩
    cases f <;> exact map_eq_ok.2 ⟨_, hread, rfl⟩
  | @call name arguments hname h ih =>
    intro depth rest hdepth hrest hopen
    rw [nesting, Nat.add_le_add_iff_right, nestingAll_le] at hdepth
    rw [Expr.lexemes, List.cons_append]
    refine takesChain_cons fun previous start stop tokens hls => ?_
    simp only [List.append_assoc, List.cons_append, List.nil_append] at hls
    have harguments := bracketed_lexemes (.inl rfl) (.inl rfl)
      (fun e he => takesItem (h e he) (ih e he) (hdepth e he)) (fun e he => (h e he).opens) rest
    obtain ⟨s', hread, hs'⟩ := call_lexemes harguments hls
    exact ⟨s', map_eq_ok.2 ⟨_, hread, rfl⟩, hs'⟩

end TokenStream

/-! ## Programs read back -/

namespace Expr

open TokenStream

theorem statementsWithin_lexemes {depth : Nat} {e : Expr} {es : List Expr}
    (h : ∀ e' ∈ e :: es, e'.Printable) (hdepth : ∀ e' ∈ e :: es, e'.nesting ≤ depth)
    {tokens : List Token} (htokens : tokens.map (·.lexeme) = separated .semicolon (e :: es)) :
    statementsWithin depth tokens = .ok (normalAll (e :: es)) := by
  have hlength : (e :: es).length ≤ tokens.length := by
    have hle := length_separated .semicolon fun e' he => (h e' he).opens
    rw [← htokens, List.length_map] at hle
    exact hle
  have hitems : ∀ e' ∈ e :: es, TakesItem (expression depth) e' :=
    fun e' he => takesItem (h e' he) (readsBack (h e' he)) (hdepth e' he)
  obtain ⟨s, hstatements, hs⟩ := statements_lexemes hitems (.ofTokens tokens) _ hlength htokens
  have hrest : s.rest = [] := List.map_eq_nil_iff.1 hs
  refine bind_eq_ok.2 ⟨_, hstatements, ?_⟩
  dsimp only
  rw [hrest]
  rfl

/-- Tokens with the lexemes of a program are read as its normal form, at every depth that its text
nests to. -/
theorem PrintableProgram.readBack {depth : Nat} {e : Expr} (h : e.PrintableProgram)
    (hdepth : e.nesting ≤ depth) {tokens : List Token}
    (htokens : tokens.map (·.lexeme) = e.lexemes) :
    ∃ es, statementsWithin depth tokens = .ok es ∧ ofStatements es = .ok e.normal := by
  cases h with
  | single h =>
    have hall : ∀ e' ∈ [e], e'.Printable := by simpa using h
    refine ⟨_, statementsWithin_lexemes hall (by simpa using hdepth) ?_, rfl⟩
    rw [htokens, separated, following, List.append_nil]
  | @sequence body h hlength =>
    rcases body with _ | ⟨e₁, _ | ⟨e₂, es⟩⟩
    · cases hlength
    · simp at hlength
    · rw [nesting, nestingAll_le] at hdepth
      exact ⟨_, statementsWithin_lexemes h hdepth htokens, rfl⟩

end Expr

end Calculator
