import Mathlib.Data.List.Forall2
import Calculator.Fault
import Calculator.Proofs.Expr.Grammar

/-
  Places of tokens.  The parser looks at the lexemes of tokens and never at their places, so tokens
  with the same lexemes stand for the same program, or are refused for the same reason
  (`statementsWithin_agree`).  This is proved for any relation between tokens that have the same
  lexeme: related tokens lead to the same expressions, or to the same fault at related tokens.  The
  relation of each of some tokens to itself then says that a fault stands at one of them.
-/

namespace Calculator

/-- Tokens with the same lexeme, wherever they stand. -/
def SameLexeme (t t' : Token) : Prop := t.lexeme = t'.lexeme

theorem forall₂_sameLexeme {tokens tokens' : List Token} : List.Forall₂ SameLexeme tokens tokens' ↔
    tokens.map (·.lexeme) = tokens'.map (·.lexeme) := by
  rw [← List.forall₂_eq_eq_eq, List.forall₂_map_left_iff, List.forall₂_map_right_iff]
  rfl

/-- The same fault, at related tokens. -/
inductive ParseFault.Alike (R : Token → Token → Prop) : ParseFault → ParseFault → Prop where
  | unexpected {found found' : Option Token} (h : Option.Rel R found found') :
      Alike R (.unexpected found) (.unexpected found')
  | demanded (demand : Demand) {found found' : Option Token} (h : Option.Rel R found found') :
      Alike R (.demanded demand found) (.demanded demand found')
  | remaining {first first' : Token} {others others' : List Token} (h : R first first')
      (hothers : List.Forall₂ R others others') :
      Alike R (.remaining first others) (.remaining first' others')
  | emptyProgram : Alike R .emptyProgram .emptyProgram
  | ambiguous {left left' right right' : Token} (hleft : R left left') (hright : R right right') :
      Alike R (.ambiguous left right) (.ambiguous left' right')
  | tooDeep {found found' : Option Token} (h : Option.Rel R found found') :
      Alike R (.tooDeep found) (.tooDeep found')

/-- Streams of related tokens. -/
structure TokenStream.Alike (R : Token → Token → Prop) (s t : TokenStream) : Prop where
  previous : Option.Rel R s.previous t.previous
  rest : List.Forall₂ R s.rest t.rest

/-- The same value, and streams of related tokens after it. -/
def TokenStream.SameRead (R : Token → Token → Prop) {α : Type} (a b : α × TokenStream) : Prop :=
  a.1 = b.1 ∧ a.2.Alike R b.2

/-- Related results, or the same fault at related tokens. -/
inductive Agree (R : Token → Token → Prop) {α : Type} (P : α → α → Prop) :
    Except ParseFault α → Except ParseFault α → Prop where
  | ok {a b : α} (h : P a b) : Agree R P (.ok a) (.ok b)
  | error {f g : ParseFault} (h : f.Alike R g) : Agree R P (.error f) (.error g)

namespace Agree

open TokenStream

variable {R : Token → Token → Prop} {α β : Type} {P : α → α → Prop} {Q : β → β → Prop}

theorem bind {x y : Except ParseFault α} {f g : α → Except ParseFault β} (h : Agree R P x y)
    (hf : ∀ {a b}, P a b → Agree R Q (f a) (g b)) : Agree R Q (x >>= f) (y >>= g) := by
  cases h with
  | ok h => exact hf h
  | error h => exact .error h

theorem map {x y : Except ParseFault α} {f : α → β} (h : Agree R P x y)
    (hf : ∀ {a b}, P a b → Q (f a) (f b)) : Agree R Q (f <$> x) (f <$> y) := by
  cases h with
  | ok h => exact .ok (hf h)
  | error h => exact .error h

/-- What is read of related tokens is the same value, and related tokens are left. -/
theorem read {x y : Except ParseFault (α × TokenStream)}
    {f g : α × TokenStream → Except ParseFault β} (h : Agree R (SameRead R) x y)
    (hf : ∀ {a s t}, s.Alike R t → Agree R Q (f (a, s)) (g (a, t))) :
    Agree R Q (x >>= f) (y >>= g) := by
  refine h.bind fun {found found'} hsame => ?_
  obtain ⟨a, s⟩ := found
  obtain ⟨b, t⟩ := found'
  obtain ⟨rfl, hst⟩ : a = b ∧ s.Alike R t := hsame
  exact hf hst

end Agree

namespace TokenStream

/-- A reader that reads related tokens in the same way. -/
def Uniform (R : Token → Token → Prop) (read : ExprReader) : Prop :=
  ∀ ⦃s t : TokenStream⦄, s.Alike R t → Agree R (Option.Rel (SameRead R)) (read s) (read t)

/-! ## Single tokens -/

section Tokens

variable {R : Token → Token → Prop} {s t : TokenStream}

theorem Alike.next {token token' : Token} {rest rest' : List Token} (h : R token token')
    (hrest : List.Forall₂ R rest rest') : Alike R ⟨some token, rest⟩ ⟨some token', rest'⟩ :=
  ⟨.some h, hrest⟩

theorem Alike.current? (h : s.Alike R t) : Option.Rel R s.current? t.current? := by
  obtain ⟨previous, rest⟩ := s
  obtain ⟨previous', rest'⟩ := t
  cases h.rest with
  | nil => exact .none
  | cons hhead _ => exact .some hhead

theorem names_comma {name : String} {token comma : Token} (hname : token.lexeme = .identifier name)
    (hcomma : comma.lexeme = .symbol .comma) (rest : List Token) :
    names (token :: comma :: rest) = (name :: (names rest).1, (names rest).2) := by
  obtain ⟨lexeme, start, stop⟩ := token
  obtain ⟨lexeme', start', stop'⟩ := comma
  cases hname
  cases hcomma
  rfl

theorem names_last {name : String} {token : Token} {rest : List Token}
    (hname : token.lexeme = .identifier name)
    (hrest : rest.head?.map (·.lexeme) ≠ some (.symbol .comma)) :
    names (token :: rest) = ([name], rest) := by
  obtain ⟨lexeme, start, stop⟩ := token
  cases hname
  unfold names
  split
  · next heq =>
    cases heq
    exact absurd rfl hrest
  · next heq =>
    cases heq
    rfl
  · next hnone => exact absurd rfl (hnone _ _ _ _)

theorem names_none {rest : List Token}
    (h : ∀ name, rest.head?.map (·.lexeme) ≠ some (.identifier name)) :
    names rest = ([], rest) := by
  unfold names
  split
  · exact absurd rfl (h _)
  · exact absurd rfl (h _)
  · rfl

variable (hR : ∀ ⦃token token'⦄, R token token' → token.lexeme = token'.lexeme)
include hR

theorem take?_alike (h : s.Alike R t) (sign : Symbol) :
    Option.Rel (Alike R) (s.take? sign) (t.take? sign) := by
  obtain ⟨previous, rest⟩ := s
  obtain ⟨previous', rest'⟩ := t
  cases h.rest with
  | nil => exact .none
  | cons hhead htail =>
    unfold take?
    dsimp only
    rw [hR hhead]
    split
    · exact .some (.next hhead htail)
    · exact .none

theorem takeWord?_alike (h : s.Alike R t) (word : Keyword) :
    Option.Rel (Alike R) (s.takeWord? word) (t.takeWord? word) := by
  obtain ⟨previous, rest⟩ := s
  obtain ⟨previous', rest'⟩ := t
  cases h.rest with
  | nil => exact .none
  | cons hhead htail =>
    unfold takeWord?
    dsimp only
    rw [hR hhead]
    split
    · exact .some (.next hhead htail)
    · exact .none

theorem demand_agree (h : s.Alike R t) (sign : Symbol) :
    Agree R (Alike R) (s.demand sign) (t.demand sign) := by
  have htake := take?_alike hR h sign
  unfold demand
  generalize s.take? sign = found, t.take? sign = found' at htake
  cases htake with
  | none => exact .error (.demanded _ h.current?)
  | some htake => exact .ok htake

theorem demandName_agree (h : s.Alike R t) :
    Agree R (SameRead R) s.demandName t.demandName := by
  obtain ⟨previous, rest⟩ := s
  obtain ⟨previous', rest'⟩ := t
  cases h.rest with
  | nil => exact .error (.demanded _ .none)
  | cons hhead htail =>
    unfold demandName
    dsimp only
    rw [hR hhead]
    split
    · exact .ok ⟨rfl, .next hhead htail⟩
    · exact .error (.demanded _ (.some hhead))

/-- The first of some tokens and the first of related ones have the same lexeme. -/
theorem head?_lexeme {rest rest' : List Token} (h : List.Forall₂ R rest rest') :
    rest'.head?.map (·.lexeme) = rest.head?.map (·.lexeme) := by
  cases h with
  | nil => rfl
  | cons hhead _ => exact congrArg some (hR hhead).symm

theorem names_alike {rest rest' : List Token} (h : List.Forall₂ R rest rest') :
    (names rest).1 = (names rest').1 ∧ List.Forall₂ R (names rest).2 (names rest').2 := by
  fun_induction names rest generalizing rest' with
  | case1 name start stop start₁ stop₁ rest others left heq ih =>
    obtain _ | ⟨hname, _ | ⟨hcomma, hrest⟩⟩ := h
    rw [heq] at ih
    obtain ⟨hnames, hleft⟩ := ih hrest
    rw [names_comma (hR hname).symm (hR hcomma).symm]
    exact ⟨congrArg (name :: ·) hnames, hleft⟩
  | case2 name start stop rest hrest =>
    obtain _ | ⟨hname, hrest'⟩ := h
    have hlast : rest.head?.map (·.lexeme) ≠ some (.symbol .comma) := by
      intro hhead
      obtain ⟨⟨_, _, _⟩, htoken, rfl⟩ := Option.map_eq_some_iff.1 hhead
      obtain ⟨others, rfl⟩ := List.head?_eq_some_iff.1 htoken
      exact hrest _ _ _ rfl
    rw [names_last (hR hname).symm (by rwa [head?_lexeme hR hrest'])]
    exact ⟨rfl, hrest'⟩
  | case3 rest _ hrest =>
    have hnone (name : String) : rest.head?.map (·.lexeme) ≠ some (.identifier name) := by
      intro hhead
      obtain ⟨⟨_, _, _⟩, htoken, rfl⟩ := Option.map_eq_some_iff.1 hhead
      obtain ⟨others, rfl⟩ := List.head?_eq_some_iff.1 htoken
      exact hrest _ _ _ _ rfl
    rw [names_none fun name => by rw [head?_lexeme hR h]; exact hnone name]
    exact ⟨rfl, h⟩

theorem closureHead?_alike (h : s.Alike R t) :
    Option.Rel (SameRead R) s.closureHead? t.closureHead? := by
  obtain ⟨hparams, hrest⟩ := names_alike hR h.rest
  unfold closureHead?
  generalize names s.rest = found, names t.rest = found' at hparams hrest
  obtain ⟨params, rest⟩ := found
  obtain ⟨params', rest'⟩ := found'
  obtain rfl : params = params' := hparams
  dsimp only at hrest ⊢
  split
  · obtain _ | @⟨_, close, _, _, hclose, _ | @⟨_, arrow, _, _, harrow, hrest⟩⟩ := hrest
    obtain ⟨lexeme, start, stop⟩ := close
    obtain ⟨lexeme', start', stop'⟩ := arrow
    obtain rfl : Lexeme.symbol .closeParen = lexeme := hR hclose
    obtain rfl : Lexeme.symbol .arrow = lexeme' := hR harrow
    exact .some ⟨rfl, .next harrow hrest⟩
  · next hnone =>
    split
    · obtain _ | @⟨close, _, _, _, hclose, _ | @⟨arrow, _, _, _, harrow, hrest⟩⟩ := hrest
      obtain ⟨lexeme, start, stop⟩ := close
      obtain ⟨lexeme', start', stop'⟩ := arrow
      obtain rfl : lexeme = Lexeme.symbol .closeParen := hR hclose
      obtain rfl : lexeme' = Lexeme.symbol .arrow := hR harrow
      exact (hnone _ _ _ _ _ rfl).elim
    · exact .none

theorem operator?_agree (h : s.Alike R t) :
    Agree R (Option.Rel (SameRead R)) s.operator? t.operator? := by
  obtain ⟨previous, rest⟩ := s
  obtain ⟨previous', rest'⟩ := t
  cases h.rest with
  | nil => exact .ok .none
  | cons hhead htail =>
    unfold operator?
    dsimp only
    rw [hR hhead]
    split
    · exact .ok (.some ⟨rfl, h⟩)
    · generalize Operator.ofSymbol? _ = found
      cases found with
      | none => exact .ok .none
      | some op => exact .ok (.some ⟨rfl, .next hhead htail⟩)
    · cases h.previous with
      | none => exact .ok .none
      | some hprevious =>
        dsimp only
        rw [hR hprevious]
        split
        · exact .ok (.some ⟨rfl, h⟩)
        · exact .error (.ambiguous hprevious hhead)
    · exact .ok .none

theorem random_agree (h : s.Alike R t) : Agree R (SameRead R) s.random t.random :=
  (demand_agree hR h _).bind fun h => (demand_agree hR h _).bind fun h => .ok ⟨rfl, h⟩

end Tokens

/-! ## Readers -/

section Readers

variable {R : Token → Token → Prop} {read : ExprReader} {s t : TokenStream}
  (hR : ∀ ⦃token token'⦄, R token token' → token.lexeme = token'.lexeme) (hread : Uniform R read)
include hread

omit hR in
theorem demandExpr_agree (h : s.Alike R t) :
    Agree R (SameRead R) (s.demandExpr read) (t.demandExpr read) := by
  refine (hread h).bind fun hfound => ?_
  cases hfound with
  | none => exact .error (.unexpected h.current?)
  | some hfound => exact .ok hfound

include hR

theorem items_agree (h : s.Alike R t) (separator closer : Symbol) (count : Nat) :
    Agree R (SameRead R) (items read separator closer count s)
      (items read separator closer count t) := by
  induction count generalizing s t with
  | zero =>
    have hclose := take?_alike hR h closer
    rw [items, items]
    generalize s.take? closer = found, t.take? closer = found' at hclose
    cases hclose with
    | none => exact .error (.unexpected h.current?)
    | some hclose => exact .ok ⟨rfl, h⟩
  | succ count ih =>
    have hclose := take?_alike hR h closer
    rw [items, items]
    generalize s.take? closer = found, t.take? closer = found' at hclose
    cases hclose with
    | some hclose => exact .ok ⟨rfl, h⟩
    | none =>
      refine (demandExpr_agree hread h).read fun {e s₁ t₁} h₁ => ?_
      have hseparator := take?_alike hR h₁ separator
      dsimp only
      generalize s₁.take? separator = found, t₁.take? separator = found' at hseparator
      cases hseparator with
      | none => exact .ok ⟨rfl, h₁⟩
      | some h₂ => exact (ih h₂).read fun h₃ => .ok ⟨rfl, h₃⟩

theorem bracketed_agree (h : s.Alike R t) (separator closer : Symbol) :
    Agree R (SameRead R) (s.bracketed read separator closer)
      (t.bracketed read separator closer) := by
  unfold bracketed
  rw [h.rest.length_eq]
  exact (items_agree hR hread h separator closer _).read fun h₁ =>
    (demand_agree hR h₁ closer).bind fun h₂ => .ok ⟨rfl, h₂⟩

theorem parenthesis_agree (h : s.Alike R t) :
    Agree R (SameRead R) (s.parenthesis read) (t.parenthesis read) := by
  have hhead := closureHead?_alike hR h
  unfold parenthesis
  generalize s.closureHead? = found, t.closureHead? = found' at hhead
  cases hhead with
  | none =>
    exact (demandExpr_agree hread h).read fun h₁ =>
      (demand_agree hR h₁ _).bind fun h₂ => .ok ⟨rfl, h₂⟩
  | @some a b hab =>
    obtain ⟨params, s₁⟩ := a
    obtain ⟨params', t₁⟩ := b
    obtain ⟨rfl, h₁⟩ : params = params' ∧ s₁.Alike R t₁ := hab
    exact (demandExpr_agree hread h₁).read fun h₂ => .ok ⟨rfl, h₂⟩

theorem named_agree (h : s.Alike R t) (name : String) :
    Agree R (SameRead R) (s.named read name) (t.named read name) := by
  have hopen := take?_alike hR h .openParen
  unfold named
  generalize s.take? .openParen = found, t.take? .openParen = found' at hopen
  cases hopen with
  | none => exact .ok ⟨rfl, h⟩
  | some h₁ => exact (bracketed_agree hR hread h₁ _ _).read fun h₂ => .ok ⟨rfl, h₂⟩

theorem assignment_agree (h : s.Alike R t) :
    Agree R (SameRead R) (s.assignment read) (t.assignment read) :=
  (demandName_agree hR h).read fun h₁ => (demand_agree hR h₁ _).bind fun h₂ =>
    (demandExpr_agree hread h₂).read fun h₃ => .ok ⟨rfl, h₃⟩

theorem conditional_agree (h : s.Alike R t) :
    Agree R (SameRead R) (s.conditional read) (t.conditional read) := by
  refine (demand_agree hR h _).bind fun h₁ => (demandExpr_agree hread h₁).read fun h₂ => ?_
  refine (demand_agree hR h₂ _).bind fun h₃ => ?_
  refine (demandExpr_agree hread h₃).read fun {e s₄ t₄} h₄ => ?_
  have helse := takeWord?_alike hR h₄ .elseWord
  dsimp only
  generalize s₄.takeWord? .elseWord = found, t₄.takeWord? .elseWord = found' at helse
  cases helse with
  | none => exact .ok ⟨rfl, h₄⟩
  | some h₅ => exact (demandExpr_agree hread h₅).read fun h₆ => .ok ⟨rfl, h₆⟩

theorem operand_agree (h : s.Alike R t) (f : Builtin) :
    Agree R (SameRead R) (s.operand read f) (t.operand read f) :=
  (demand_agree hR h _).bind fun h₁ => (demandExpr_agree hread h₁).read fun h₂ =>
    (demand_agree hR h₂ _).bind fun h₃ => .ok ⟨rfl, h₃⟩

theorem primary_uniform : Uniform R (primary read) := by
  intro s t h
  obtain ⟨previous, rest⟩ := s
  obtain ⟨previous', rest'⟩ := t
  cases h.rest with
  | nil => exact .ok .none
  | cons hhead htail =>
    have hnext := Alike.next hhead htail
    unfold primary
    dsimp only
    rw [hR hhead]
    split
    · exact (bracketed_agree hR hread hnext _ _).read fun h₁ => .ok (.some ⟨rfl, h₁⟩)
    · exact (parenthesis_agree hR hread hnext).map .some
    · exact .ok .none
    · exact (assignment_agree hR hread hnext).map .some
    · exact (conditional_agree hR hread hnext).map .some
    · exact (random_agree hR hnext).map .some
    · split
      · exact (operand_agree hR hread hnext _).map .some
      · generalize Lexeme.literal? _ = literal
        cases literal with
        | none => exact .ok .none
        | some x => exact .ok (.some ⟨rfl, hnext⟩)
    · exact .ok (.some ⟨rfl, hnext⟩)
    · exact (named_agree hR hread hnext _).map .some

theorem chainTail_agree (h : s.Alike R t) (count : Nat) :
    Agree R (SameRead R) (chainTail read count s) (chainTail read count t) := by
  induction count generalizing s t with
  | zero => exact .ok ⟨rfl, h⟩
  | succ count ih =>
    refine (operator?_agree hR h).bind fun hfound => ?_
    cases hfound with
    | none => exact .ok ⟨rfl, h⟩
    | @some a b hab =>
      obtain ⟨op, s₁⟩ := a
      obtain ⟨op', t₁⟩ := b
      obtain ⟨rfl, h₁⟩ : op = op' ∧ s₁.Alike R t₁ := hab
      exact (demandExpr_agree hread h₁).read fun h₂ => (ih h₂).read fun h₃ => .ok ⟨rfl, h₃⟩

theorem chain_uniform : Uniform R (chain read) := by
  intro s t h
  refine (hread h).bind fun hfound => ?_
  cases hfound with
  | none => exact .ok .none
  | @some a b hab =>
    obtain ⟨head, s₁⟩ := a
    obtain ⟨head', t₁⟩ := b
    obtain ⟨rfl, h₁⟩ : head = head' ∧ s₁.Alike R t₁ := hab
    dsimp only
    rw [h₁.rest.length_eq]
    exact (chainTail_agree hR hread h₁ _).read fun h₂ => .ok (.some ⟨rfl, h₂⟩)

theorem statements_agree (h : s.Alike R t) (count : Nat) :
    Agree R (SameRead R) (statements read count s) (statements read count t) := by
  induction count generalizing s t with
  | zero => exact .ok ⟨rfl, h⟩
  | succ count ih =>
    refine (hread h).bind fun hfound => ?_
    cases hfound with
    | none => exact .ok ⟨rfl, h⟩
    | @some a b hab =>
      obtain ⟨e, s₁⟩ := a
      obtain ⟨e', t₁⟩ := b
      obtain ⟨rfl, h₁⟩ : e = e' ∧ s₁.Alike R t₁ := hab
      have hsemicolon := take?_alike hR h₁ .semicolon
      dsimp only
      generalize s₁.take? .semicolon = found, t₁.take? .semicolon = found' at hsemicolon
      cases hsemicolon with
      | none => exact .ok ⟨rfl, h₁⟩
      | some h₂ => exact (ih h₂).read fun h₃ => .ok ⟨rfl, h₃⟩

end Readers

theorem expression_uniform {R : Token → Token → Prop}
    (hR : ∀ ⦃token token'⦄, R token token' → token.lexeme = token'.lexeme) (depth : Nat) :
    Uniform R (expression depth) := by
  induction depth with
  | zero => exact fun _ _ h => .error (.tooDeep h.current?)
  | succ depth ih => exact chain_uniform hR (primary_uniform hR ih)

end TokenStream

namespace Expr

open TokenStream

variable {R : Token → Token → Prop}
  (hR : ∀ ⦃token token'⦄, R token token' → token.lexeme = token'.lexeme)
  {tokens tokens' : List Token}
include hR

/-- Related tokens stand for the same statements, or are refused with the same fault at related
tokens. -/
theorem statementsWithin_agree (h : List.Forall₂ R tokens tokens') (depth : Nat) :
    Agree R Eq (statementsWithin depth tokens) (statementsWithin depth tokens') := by
  have hstream : (TokenStream.ofTokens tokens).Alike R (TokenStream.ofTokens tokens') := ⟨.none, h⟩
  unfold statementsWithin
  rw [h.length_eq]
  refine (statements_agree hR (expression_uniform hR depth) hstream _).read fun {es s t} hst => ?_
  obtain ⟨previous, rest⟩ := s
  obtain ⟨previous', rest'⟩ := t
  cases hst.rest with
  | nil => exact .ok rfl
  | cons hfirst hothers => exact .error (.remaining hfirst hothers)

/-- Related tokens stand for the same program, or are refused with the same fault at related
tokens. -/
theorem ofTokens_agree [Limits] (h : List.Forall₂ R tokens tokens') :
    Agree R Eq (ofTokens tokens) (ofTokens tokens') := by
  refine (statementsWithin_agree hR h Limits.read).bind fun {es es'} hes => ?_
  subst hes
  match es with
  | [] => exact .error .emptyProgram
  | [e] => exact .ok rfl
  | e₁ :: e₂ :: es => exact .ok rfl

omit hR in
/-- Tokens with the same lexemes stand for the same program, or are refused with the same fault. -/
theorem ofTokens_lexemes [Limits] (h : tokens.map (·.lexeme) = tokens'.map (·.lexeme)) :
    Agree SameLexeme Eq (ofTokens tokens) (ofTokens tokens') :=
  ofTokens_agree (fun _ _ => id) (forall₂_sameLexeme.2 h)

end Expr

namespace ParseFault

/-- A fault stands at one of the tokens that are read. -/
theorem mem_of_token? [Limits] {tokens : List Token} {fault : ParseFault} {t : Token}
    (h : Expr.ofTokens tokens = .error fault) (ht : fault.token? = some t) : t ∈ tokens := by
  -- The relation of each of the tokens to itself is kept by reading them.
  have hself : List.Forall₂ (fun t t' => t = t' ∧ t ∈ tokens) tokens tokens :=
    List.forall₂_same.2 fun t ht => ⟨rfl, ht⟩
  have hagree := Expr.ofTokens_agree (fun _ _ hR => congrArg _ hR.1) hself
  rw [h] at hagree
  cases hagree with
  | error halike =>
    cases halike with
    | unexpected h | demanded _ h | tooDeep h =>
      obtain rfl : _ = some t := ht
      cases h with
      | some h => exact h.2
    | remaining h _ | ambiguous _ h =>
      cases ht
      exact h.2
    | emptyProgram => cases ht

section SameLexeme

variable {f g : ParseFault}

theorem Alike.kind {R : Token → Token → Prop} (h : f.Alike R g) : f.kind = g.kind := by
  cases h <;> rfl

theorem found_same {found found' : Option Token} (h : Option.Rel SameLexeme found found') :
    ParseFault.found found = ParseFault.found found' := by
  cases h with
  | none => rfl
  | @some t t' h =>
    have hlexeme : t.lexeme = t'.lexeme := h
    rw [ParseFault.found, ParseFault.found, Option.elim_some, Option.elim_some, hlexeme]

/-- A fault says nothing of places. -/
theorem Alike.detail (h : f.Alike SameLexeme g) : f.detail = g.detail := by
  cases h with
  | unexpected h => exact congrArg ("unexpected ".toList ++ ·) (found_same h)
  | demanded demand h =>
    cases demand with
    | symbol sign =>
      exact congrArg ("expect ".toList ++ quote sign.spelling ++ ", but ".toList ++ · ++
        " was given".toList) (found_same h)
    | name =>
      exact congrArg ("expect ".toList ++ quote "ID".toList ++ ", but ".toList ++ · ++
        " was given".toList) (found_same h)
  | remaining h hothers =>
    have hlexemes := forall₂_sameLexeme.1 (.cons h hothers)
    have htexts := congrArg (List.map Lexeme.text) hlexemes
    rw [List.map_map, List.map_map] at htexts
    exact congrArg (List.intercalate [' ']) htexts
  | @ambiguous left left' right right' hleft hright =>
    have hl : left.lexeme = left'.lexeme := hleft
    have hr : right.lexeme = right'.lexeme := hright
    exact congrArg₂ (quote ·.text ++ " followed by ".toList ++ quote ·.text) hl hr
  | emptyProgram | tooDeep _ => rfl

end SameLexeme

end ParseFault

end Calculator
