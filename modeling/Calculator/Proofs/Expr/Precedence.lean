import Calculator.Proofs.Expr.Semicolon

/-
  Precedence and associativity.  What a chain of operands and operators says is told by the classes
  of its operators: it is split at the last operator of the lowest class in it, and so are both sides
  (`Chain.ByTable`).  Putting the operators down one after another, as the parser does, comes to the
  same, since an operator waits just as long as those after it bind closer (`ByTable.group`).  So the
  parser reads a chain of operands that end by themselves, with operators between them or without one
  where none is needed, to its end and by the table (`expression_byTable`).
-/

namespace Calculator

namespace Operator

/-- Every operator but a product without a sign is written. -/
theorem lexemes_of_ne {op : Operator} (h : op ≠ .juxtaposed) :
    op.lexemes = [.symbol op.symbol] := by
  cases op <;> first | rfl | exact absurd rfl h

theorem written_of_ne {op : Operator} (h : op ≠ .juxtaposed) : op.written = op := by
  cases op <;> first | rfl | exact absurd rfl h

end Operator

namespace Chain

/-! ## The table -/

/-- A chain as an expression: an operand alone is itself, and operators split at the last one of the
lowest class. -/
inductive ByTable : Expr → List (Operator × Expr) → Expr → Prop where
  | operand (e : Expr) : ByTable e [] e
  | split {head next left right : Expr} {op : Operator} {before after : List (Operator × Expr)}
      (hbefore : ∀ item ∈ before, op.precedence ≤ item.1.precedence)
      (hafter : ∀ item ∈ after, op.precedence < item.1.precedence)
      (hleft : ByTable head before left) (hright : ByTable next after right) :
      ByTable head (before ++ (op, next) :: after) (.binary left op right)

variable {head e : Expr} {ops rest : List (Operator × Expr)} {pending : Pending}

/-- Between pending operators of lower classes and operators that bind no closer, a chain groups to
what it is by the table. -/
theorem ByTable.group (h : ByTable head ops e)
    (hpending : ∀ item ∈ pending.head?, ∀ link ∈ ops, item.2.precedence < link.1.precedence)
    (hrest : ∀ item ∈ rest.head?, ∀ link ∈ ops, item.1.precedence ≤ link.1.precedence) :
    group pending head (ops ++ rest) = group pending e rest := by
  induction h generalizing pending rest with
  | operand e => rfl
  | @split head next left right op before after hbefore hafter hleft hright ih₁ ih₂ =>
    have hop : (op, next) ∈ before ++ (op, next) :: after :=
      List.mem_append_right _ List.mem_cons_self
    have hleft' : ∀ link ∈ before, link ∈ before ++ (op, next) :: after := fun link hlink =>
      List.mem_append_left _ hlink
    have hright' : ∀ link ∈ after, link ∈ before ++ (op, next) :: after := fun link hlink =>
      List.mem_append_right _ (List.mem_cons_of_mem _ hlink)
    calc Chain.group pending head (before ++ (op, next) :: after ++ rest)
        = Chain.group pending head (before ++ (op, next) :: (after ++ rest)) := by
          rw [List.append_assoc, List.cons_append]
      _ = Chain.group pending left ((op, next) :: (after ++ rest)) :=
          ih₁ (fun item hitem link hlink => hpending item hitem link (hleft' link hlink))
            (by rintro _ ⟨⟩; exact hbefore)
      _ = Chain.group ((left, op) :: pending) next (after ++ rest) := by
          rw [Chain.group, Expr.reduce_of_lt left fun item hitem => hpending item hitem _ hop]
      _ = Chain.group ((left, op) :: pending) right rest :=
          ih₂ (by rintro _ ⟨⟩; exact hafter)
            fun item hitem link hlink => hrest item hitem link (hright' link hlink)
      _ = Chain.group pending (.binary left op right) rest :=
          Expr.group_apply fun item hitem => hrest item hitem _ hop

/-- Operators have a last one of their lowest class. -/
theorem exists_split (hne : ops ≠ []) : ∃ before op next after,
    ops = before ++ (op, next) :: after ∧
      (∀ item ∈ before, op.precedence ≤ item.1.precedence) ∧
      ∀ item ∈ after, op.precedence < item.1.precedence := by
  induction ops with
  | nil => exact absurd rfl hne
  | cons link ops ih =>
    obtain ⟨op, next⟩ := link
    cases hops : ops with
    | nil => exact ⟨[], op, next, [], rfl, List.forall_mem_nil _, List.forall_mem_nil _⟩
    | cons link' ops' =>
      obtain ⟨before, op', next', after, heq, hbefore, hafter⟩ :=
        ih (by rw [hops]; exact List.cons_ne_nil _ _)
      rw [← hops, heq]
      rcases Nat.lt_or_ge op.precedence op'.precedence with hlt | hge
      · -- All that follow bind closer than the first operator.
        refine ⟨[], op, next, _, rfl, List.forall_mem_nil _, List.forall_mem_append.2 ⟨?_, ?_⟩⟩
        · exact fun item hitem => Nat.lt_of_lt_of_le hlt (hbefore item hitem)
        · exact List.forall_mem_cons.2 ⟨hlt, fun item hitem => Nat.lt_trans hlt (hafter item hitem)⟩
      · exact ⟨(op, next) :: before, op', next', after, rfl,
          List.forall_mem_cons.2 ⟨hge, hbefore⟩, hafter⟩

theorem exists_byTable (head : Expr) (ops : List (Operator × Expr)) :
    ∃ e, ByTable head ops e := by
  induction hlength : ops.length using Nat.strong_induction_on generalizing head ops with
  | _ n ih =>
    cases hops : ops with
    | nil => exact ⟨head, .operand head⟩
    | cons link others =>
      have hne : ops ≠ [] := by
        rw [hops]
        exact List.cons_ne_nil _ _
      obtain ⟨before, op, next, after, heq, hbefore, hafter⟩ := exists_split hne
      have hsize : before.length + after.length < n := by
        rw [← hlength, heq, List.length_append, List.length_cons]
        omega
      obtain ⟨left, hleft⟩ := ih before.length (by omega) head before rfl
      obtain ⟨right, hright⟩ := ih after.length (by omega) next after rfl
      rw [← hops, heq]
      exact ⟨_, .split hbefore hafter hleft hright⟩

/-- What a chain is by the table is what it is grouped to. -/
theorem byTable_iff : ByTable head ops e ↔ e = toExpr ⟨head, ops⟩ := by
  have hgroup {e : Expr} (h : ByTable head ops e) : e = toExpr ⟨head, ops⟩ := by
    have hwhole : Chain.group [] head (ops ++ []) = Chain.group [] e [] :=
      h.group (by simp) (by simp)
    rw [List.append_nil] at hwhole
    exact hwhole.symm
  refine ⟨hgroup, ?_⟩
  rintro rfl
  obtain ⟨e, he⟩ := exists_byTable head ops
  rw [← hgroup he]
  exact he

end Chain

namespace TokenStream

open Calculator.Expr Calculator.Chain

/-! ## Operands that end by themselves -/

/-- Lexemes as an operand that ends by itself, before others: a number, a name, a call, a function
of the language with its parentheses, a block, or an expression in parentheses that is no closure.
What stands in brackets is nested at most `depth` deep. -/
inductive Operand (depth : Nat) (rest : List Lexeme) : List Lexeme → Expr → Prop where
  | literal {l : Lexeme} {x : Number} (h : l.literal? = some x) : Operand depth rest [l] (.literal x)
  | reference (name : String) : Operand depth rest [.identifier name] (.reference name)
  | call (name : String) {ls : List Lexeme} {es : List Expr}
      (h : TakesList (expression depth) .comma .closeParen ls rest es) :
      Operand depth rest (.identifier name :: .symbol .openParen :: ls ++ [.symbol .closeParen])
        (.call name es)
  | random : Operand depth rest [.keyword .rand, .symbol .openParen, .symbol .closeParen] .random
  | builtin (f : Builtin) {ls : List Lexeme} {e : Expr}
      (h : Takes (expression depth) ls (.symbol .closeParen :: rest) e) :
      Operand depth rest
        (.keyword f.keyword :: .symbol .openParen :: ls ++ [.symbol .closeParen]) (.builtin f e)
  | block {ls : List Lexeme} {es : List Expr}
      (h : TakesList (expression depth) .semicolon .closeBrace ls rest es) :
      Operand depth rest (.symbol .openBrace :: ls ++ [.symbol .closeBrace]) (.block es)
  | parens {ls : List Lexeme} {e : Expr}
      (h : Takes (expression depth) ls (.symbol .closeParen :: rest) e)
      (hclosure : ¬ OpensClosure (ls ++ .symbol .closeParen :: rest)) :
      Operand depth rest (.symbol .openParen :: ls ++ [.symbol .closeParen]) e

/-- No operator is needed before a parenthesis, except after a name, nor between a literal and a
name. -/
def MayJuxtapose (left right : List Lexeme) : Prop :=
  (right.head? = some (.symbol .openParen) ∧ ∀ name, left ≠ [.identifier name]) ∨
    (∃ name, right.head? = some (.identifier name)) ∧ ∃ l, left = [l] ∧ l.literal?.isSome = true

/-- No chain goes on with the first of these lexemes: an operator, a parenthesis or a name. -/
def EndsChain (rest : List Lexeme) : Prop :=
  ∀ l ∈ rest.head?, (∀ op : Operator, l ≠ .symbol op.symbol) ∧ l ≠ .symbol .openParen ∧
    ∀ name, l ≠ .identifier name

/-- Operators and operands that follow an operand, up to the end of the chain. -/
inductive Links (depth : Nat) (rest : List Lexeme) :
    List Lexeme → List ((Operator × Expr) × List Lexeme) → Prop where
  | done {left : List Lexeme} (h : EndsChain rest) : Links depth rest left []
  | link {left right : List Lexeme} {op : Operator} {e : Expr}
      {tail : List ((Operator × Expr) × List Lexeme)}
      (hop : op = .juxtaposed → MayJuxtapose left right)
      (he : Operand depth (tailLexemes tail ++ rest) right e) (h : Links depth rest right tail) :
      Links depth rest left (((op, e), right) :: tail)

variable {depth : Nat} {ls left rest : List Lexeme} {e : Expr}
  {tail : List ((Operator × Expr) × List Lexeme)}

theorem primary_literal {read : ExprReader} {l : Lexeme} {x : Number} (h : l.literal? = some x)
    (previous : Option Token) (start stop : Location) (tokens : List Token) :
    primary read ⟨previous, ⟨l, start, stop⟩ :: tokens⟩ =
      .ok (some (.literal x, ⟨some ⟨l, start, stop⟩, tokens⟩)) := by
  cases l with
  | number y => cases h; rfl
  | keyword word => cases word <;> cases h <;> rfl
  | symbol sign => cases h
  | identifier name => cases h

/-- An operand is read to its end, a name where it is not called. -/
theorem Operand.takes (h : Operand depth rest ls e)
    (hcalled : ∀ name, ls = [.identifier name] → rest.head? ≠ some (.symbol .openParen)) :
    Takes (primary (expression depth)) ls rest e := by
  cases h with
  | literal h =>
    exact takes_cons fun previous start stop tokens hls =>
      ⟨_, primary_literal h previous start stop tokens, hls⟩
  | reference name =>
    refine takes_cons fun previous start stop tokens hls => ?_
    obtain ⟨s', hread, hs'⟩ := reference_lexemes (hcalled name rfl) hls
    exact ⟨s', map_eq_ok.2 ⟨_, hread, rfl⟩, hs'⟩
  | call name h =>
    rw [List.cons_append]
    refine takes_cons fun previous start stop tokens hls => ?_
    simp only [List.append_assoc, List.cons_append, List.nil_append] at hls
    obtain ⟨s', hread, hs'⟩ := call_lexemes h hls
    exact ⟨s', map_eq_ok.2 ⟨_, hread, rfl⟩, hs'⟩
  | random =>
    refine takes_cons fun previous start stop tokens hls => ?_
    obtain ⟨s', hread, hs'⟩ := random_lexemes hls
    exact ⟨s', map_eq_ok.2 ⟨_, hread, rfl⟩, hs'⟩
  | builtin f h =>
    rw [List.cons_append]
    refine takes_cons fun previous start stop tokens hls => ?_
    simp only [List.append_assoc, List.cons_append, List.nil_append] at hls
    obtain ⟨s', hread, hs'⟩ := operand_lexemes (f := f) h hls
    refine ⟨s', ?_, hs'⟩
    cases f <;> exact map_eq_ok.2 ⟨_, hread, rfl⟩
  | block h =>
    rw [List.cons_append]
    refine takes_cons fun previous start stop tokens hls => ?_
    simp only [List.append_assoc, List.cons_append, List.nil_append] at hls
    obtain ⟨s', hbody, hs'⟩ := h _ hls
    exact ⟨s', bind_eq_ok.2 ⟨_, hbody, rfl⟩, hs'⟩
  | parens h hclosure =>
    rw [List.cons_append]
    refine takes_cons fun previous start stop tokens hls => ?_
    simp only [List.append_assoc, List.cons_append, List.nil_append] at hls
    obtain ⟨s', hread, hs'⟩ := parens_lexemes h hclosure hls
    exact ⟨s', map_eq_ok.2 ⟨_, hread, rfl⟩, hs'⟩

/-! ## Chains -/

/-- A stream after an operand: where that is a literal, it is what was read last. -/
def After (left : List Lexeme) (s : TokenStream) : Prop :=
  ∀ l, left = [l] → l.literal?.isSome = true → s.previous.map (·.lexeme) = some l

theorem after_of_primary {read : ExprReader} {s s' : TokenStream} (hs : s.lexemes = ls ++ rest)
    (h : primary read s = .ok (some (e, s'))) : After ls s' := by
  rintro l rfl hl
  obtain ⟨previous, ⟨lexeme, start, stop⟩, tokens, rfl, hlexeme, -⟩ := exists_of_lexemes hs
  obtain rfl : lexeme = l := hlexeme
  obtain ⟨x, hx⟩ := Option.isSome_iff_exists.1 hl
  rw [primary_literal hx] at h
  cases h
  rfl

theorem MayJuxtapose.operator? {right others : List Lexeme} {s : TokenStream}
    (h : MayJuxtapose left right) (hs : s.lexemes = right ++ others) (hafter : After left s) :
    s.operator? = .ok (some (.juxtaposed, s)) := by
  rcases h with ⟨hparen, -⟩ | ⟨⟨name, hname⟩, l, rfl, hl⟩
  · obtain ⟨ls, rfl⟩ := List.head?_eq_some_iff.1 hparen
    obtain ⟨previous, ⟨lexeme, start, stop⟩, tokens, rfl, hlexeme, -⟩ := exists_of_lexemes hs
    obtain rfl : lexeme = _ := hlexeme
    rfl
  · obtain ⟨ls, rfl⟩ := List.head?_eq_some_iff.1 hname
    obtain ⟨previous, ⟨lexeme, start, stop⟩, tokens, rfl, hlexeme, -⟩ := exists_of_lexemes hs
    obtain rfl : lexeme = _ := hlexeme
    obtain ⟨token, rfl, rfl⟩ := Option.map_eq_some_iff.1 (hafter l rfl hl)
    simp only [TokenStream.operator?, hl, if_true]

theorem EndsChain.operator? {s : TokenStream} (h : EndsChain s.lexemes) :
    s.operator? = .ok none := by
  obtain ⟨previous, rest⟩ := s
  cases rest with
  | nil => rfl
  | cons token rest =>
    obtain ⟨lexeme, start, stop⟩ := token
    obtain ⟨hop, hparen, hname⟩ := h lexeme rfl
    cases lexeme with
    | keyword word => rfl
    | number x => rfl
    | identifier name => exact absurd rfl (hname name)
    | symbol sign =>
      have hnone : Operator.ofSymbol? sign = none := by
        cases hsign : Operator.ofSymbol? sign with
        | none => rfl
        | some op =>
          refine absurd ?_ (hop op)
          cases sign <;> cases hsign <;> rfl
      cases sign with
      | openParen => exact absurd rfl hparen
      | _ => simp only [TokenStream.operator?, hnone, Option.map_none]

theorem tailLexemes_cons (op : Operator) (e : Expr) (right rest : List Lexeme) :
    tailLexemes (((op, e), right) :: tail) ++ rest =
      op.lexemes ++ (right ++ (tailLexemes tail ++ rest)) := by
  rw [tailLexemes, List.flatMap_cons, List.append_assoc, List.append_assoc]
  rfl

/-- A name in a chain is not called. -/
theorem Links.not_called (h : Links depth rest left tail) (name : String)
    (hleft : left = [.identifier name]) :
    (tailLexemes tail ++ rest).head? ≠ some (.symbol .openParen) := by
  subst hleft
  intro hhead
  cases h with
  | done h => exact (h _ hhead).2.1 rfl
  | @link _ right op e tail hop he h =>
    rw [tailLexemes_cons] at hhead
    by_cases hjuxtaposed : op = .juxtaposed
    · subst hjuxtaposed
      rcases hop rfl with ⟨-, hname⟩ | ⟨-, l, hl, hliteral⟩
      · exact hname name rfl
      · cases hl
        cases hliteral
    · rw [Operator.lexemes_of_ne hjuxtaposed] at hhead
      cases op <;> cases hhead

theorem Links.endsChain (h : Links depth rest left tail) : EndsChain rest := by
  induction h with
  | done h => exact h
  | link hop he h ih => exact ih

/-- The operators and operands of a chain are read one after another, up to its end. -/
theorem Links.tailReads (h : Links depth rest left tail) {s : TokenStream}
    (hs : s.lexemes = tailLexemes tail ++ rest) (hafter : After left s) : ∃ s',
    TailReads (primary (expression depth)) s (tail.map (·.1)) s' ∧ s'.lexemes = rest := by
  induction h generalizing s with
  | done h => exact ⟨s, .nil, hs⟩
  | @link left right op e tail hop he h ih =>
    rw [tailLexemes_cons] at hs
    obtain ⟨s₁, hoperator, hs₁⟩ : ∃ s₁, s.operator? = .ok (some (op, s₁)) ∧
        s₁.lexemes = right ++ (tailLexemes tail ++ rest) := by
      by_cases hjuxtaposed : op = .juxtaposed
      · subst hjuxtaposed
        exact ⟨s, (hop rfl).operator? hs hafter, hs⟩
      · rw [Operator.lexemes_of_ne hjuxtaposed] at hs
        obtain ⟨s₁, hoperator, hs₁⟩ := operator?_lexemes hs
        refine ⟨s₁, ?_, hs₁⟩
        rw [hoperator, Operator.written_of_ne hjuxtaposed]
    obtain ⟨s₂, hread, hs₂⟩ := he.takes h.not_called s₁ hs₁
    obtain ⟨s₃, hreads, hs₃⟩ := ih hs₂ (after_of_primary hs₁ hread)
    have hlt : s₂.lexemes.length < s.lexemes.length := by
      have hshort := primary_length hread
      rw [operator?_sound hoperator, List.length_append]
      omega
    exact ⟨s₃, .cons hoperator hread hlt hreads, hs₃⟩

/-- A chain of operands that end by themselves is read whole, as the one expression that it is by
the table. -/
theorem expression_byTable {depth : Nat} {first rest : List Lexeme} {head : Expr}
    {tail : List ((Operator × Expr) × List Lexeme)}
    (hhead : Operand depth (tailLexemes tail ++ rest) first head)
    (htail : Links depth rest first tail) :
    ∃ e, (∀ e', ByTable head (tail.map (·.1)) e' ↔ e' = e) ∧
      Takes (expression (depth + 1)) (first ++ tailLexemes tail) rest e := by
  have hchain : TakesChain depth (first ++ tailLexemes tail) rest head (tail.map (·.1)) := by
    intro s hs
    rw [List.append_assoc] at hs
    obtain ⟨s₁, hread, hs₁⟩ := hhead.takes htail.not_called s hs
    obtain ⟨s₂, hreads, hs₂⟩ := htail.tailReads hs₁ (after_of_primary hs hread)
    exact ⟨s₁, s₂, hread, hreads, hs₂⟩
  have hstop (s : TokenStream) (hs : s.lexemes = rest) : s.operator? = .ok none := by
    subst hs
    exact htail.endsChain.operator?
  exact ⟨_, fun e' => byTable_iff, hchain.expression_of_stop hstop⟩

/-- In `1 - 2 x - 3` the product comes first and the second difference last. -/
theorem expression_byTable_differences :
    Takes (expression 1)
      [.number 1, .symbol .sub, .number 2, .identifier "x", .symbol .sub, .number 3] []
      (.binary (.binary (.literal 1) .sub (.binary (.literal 2) .juxtaposed (.reference "x"))) .sub
        (.literal 3)) := by
  have hlast : Links 0 [] [.identifier "x"] [((.sub, .literal 3), [.number 3])] :=
    .link nofun (.literal rfl) (.done nofun)
  have hname : Links 0 [] [.number 2]
      [((.juxtaposed, .reference "x"), [.identifier "x"]), ((.sub, .literal 3), [.number 3])] :=
    .link (fun _ => .inr ⟨⟨"x", rfl⟩, _, rfl, rfl⟩) (.reference "x") hlast
  have htail : Links 0 [] [.number 1]
      [((.sub, .literal 2), [.number 2]), ((.juxtaposed, .reference "x"), [.identifier "x"]),
        ((.sub, .literal 3), [.number 3])] :=
    .link nofun (.literal rfl) hname
  have hproduct : ByTable (.literal 2) ([] ++ (Operator.juxtaposed, Expr.reference "x") :: [])
      (.binary (.literal 2) .juxtaposed (.reference "x")) :=
    .split (List.forall_mem_nil _) (List.forall_mem_nil _) (.operand _) (.operand _)
  have hfirst : ByTable (.literal 1)
      ([] ++ (Operator.sub, Expr.literal 2) :: [(.juxtaposed, .reference "x")])
      (.binary (.literal 1) .sub (.binary (.literal 2) .juxtaposed (.reference "x"))) :=
    .split (List.forall_mem_nil _) (List.forall_mem_singleton.2 (by decide)) (.operand _) hproduct
  have hwhole : ByTable (.literal 1)
      ([(Operator.sub, Expr.literal 2), (Operator.juxtaposed, Expr.reference "x")] ++
        (.sub, .literal 3) :: [])
      (.binary (.binary (.literal 1) .sub (.binary (.literal 2) .juxtaposed (.reference "x"))) .sub
        (.literal 3)) :=
    .split (by decide) (List.forall_mem_nil _) hfirst (.operand _)
  obtain ⟨e, hsole, htakes⟩ := expression_byTable (.literal rfl) htail
  rw [(hsole _).1 hwhole]
  exact htakes

end TokenStream

end Calculator
