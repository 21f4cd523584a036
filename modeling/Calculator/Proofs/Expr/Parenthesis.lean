import Calculator.Proofs.Expr.Places
import Calculator.Proofs.Expr.ReadBack
import Calculator.Proofs.Expr.Yield

/-
  What an opening parenthesis starts.  The tokens up to an arrow decide it: names with commas
  between them, a closing parenthesis and an arrow make it a closure, whatever follows, and anything
  else a grouped expression (`primary_openParen`).  A parser that tries to read a closure token by
  token, gives up where it has to and goes back to the parenthesis comes to the same
  (`closureOrParens_eq`).
-/

namespace Calculator

namespace TokenStream

/-! ## The head of a closure -/

/-- Tokens after an opening parenthesis that make it that of a closure, the parameters, and what is
left after the arrow. -/
inductive ClosureHead (params : List String) : List Token → TokenStream → Prop where
  | intro (trailing : Bool) {header rest : List Token} {close arrow : Token}
      (hheader : header.map (·.lexeme) =
        listed .comma trailing (params.map fun name => [.identifier name]))
      (hclose : close.lexeme = .symbol .closeParen) (harrow : arrow.lexeme = .symbol .arrow) :
      ClosureHead params (header ++ close :: arrow :: rest) ⟨some arrow, rest⟩

theorem names_suffix (tokens : List Token) : (names tokens).2 <:+ tokens := by
  fun_induction names tokens with
  | case1 name start stop start' stop' rest others rest' heq ih =>
    rw [heq] at ih
    exact ih.trans ((List.suffix_cons _ rest).trans (List.suffix_cons _ _))
  | case2 name start stop rest hrest => exact List.suffix_cons _ rest
  | case3 rest hrest hrest' => exact List.suffix_refl rest

/-- Names are read off the tokens that they are listed in. -/
theorem names_split (tokens : List Token) : ∃ header trailing,
    tokens = header ++ (names tokens).2 ∧ header.map (·.lexeme) =
      listed .comma trailing ((names tokens).1.map fun name => [.identifier name]) := by
  obtain ⟨header, hsplit⟩ := names_suffix tokens
  obtain ⟨trailing, hnames⟩ := names_sound tokens
  refine ⟨header, trailing, hsplit.symm, List.append_cancel_right (Eq.trans ?_ hnames)⟩
  rw [← List.map_append, hsplit]

/-- Names before a closing parenthesis are all read, and nothing else. -/
theorem names_header {params : List String} {trailing : Bool} {header rest : List Token}
    {close : Token} (hheader : header.map (·.lexeme) =
      listed .comma trailing (params.map fun name => [.identifier name]))
    (hclose : close.lexeme = .symbol .closeParen) :
    names (header ++ close :: rest) = (params, close :: rest) := by
  have hlexemes : (header ++ close :: rest).map (·.lexeme) =
      listed .comma trailing (params.map fun name => [.identifier name]) ++
        .symbol .closeParen :: rest.map (·.lexeme) := by
    rw [List.map_append, hheader, List.map_cons, hclose]
  obtain ⟨hparams, hleft⟩ := names_listed hlexemes
  have hlength : (names (header ++ close :: rest)).2.length = (close :: rest).length := by
    simpa using congrArg List.length hleft
  have hsuffix : (names (header ++ close :: rest)).2 <:+ close :: rest :=
    List.suffix_of_suffix_length_le (names_suffix _) (List.suffix_append _ _) hlength.le
  exact Prod.ext hparams (hsuffix.eq_of_length hlength)

theorem take?_eq_some_iff {sign : Symbol} {s s' : TokenStream} : s.take? sign = some s' ↔
    ∃ token rest, s.rest = token :: rest ∧ token.lexeme = .symbol sign ∧
      s' = ⟨some token, rest⟩ := by
  obtain ⟨previous, rest⟩ := s
  constructor
  · intro h
    cases rest with
    | nil => cases h
    | cons token rest =>
      obtain ⟨hsign, h⟩ := Option.ite_none_right_eq_some.1 h
      exact ⟨token, rest, rfl, hsign, (Option.some.inj h).symm⟩
  · rintro ⟨token, rest, rfl, hsign, rfl⟩
    exact if_pos hsign

theorem take?_eq_none_iff {sign : Symbol} {s : TokenStream} :
    s.take? sign = none ↔ s.rest.head?.map (·.lexeme) ≠ some (.symbol sign) := by
  constructor
  · intro h hhead
    obtain ⟨token, htoken, hsign⟩ := Option.map_eq_some_iff.1 hhead
    obtain ⟨rest, hrest⟩ := List.head?_eq_some_iff.1 htoken
    cases h.symm.trans (take?_eq_some_iff.2 ⟨token, rest, hrest, hsign, rfl⟩)
  · intro h
    exact take?_eq_none (by rwa [lexemes, List.head?_map])

/-- After the names of a closure come a closing parenthesis and an arrow. -/
theorem closureHead?_take? (s : TokenStream) (previous : Option Token) : s.closureHead? =
    ((take? .closeParen ⟨previous, (names s.rest).2⟩).bind (take? .arrow)).map
      ((names s.rest).1, ·) := by
  rw [closureHead?]
  generalize names s.rest = found
  obtain ⟨params, rest⟩ := found
  dsimp only
  split
  · rfl
  · next hnone =>
    refine (Option.map_eq_none_iff.2 (Option.eq_none_iff_forall_ne_some.2 fun s' h => ?_)).symm
    obtain ⟨s₁, hclose, harrow⟩ := Option.bind_eq_some_iff.1 h
    obtain ⟨⟨lexeme, start, stop⟩, rest₁, rfl, hl, rfl⟩ := take?_eq_some_iff.1 hclose
    obtain ⟨⟨lexeme', start', stop'⟩, rest₂, rfl, hl', rfl⟩ := take?_eq_some_iff.1 harrow
    obtain rfl : lexeme = _ := hl
    obtain rfl : lexeme' = _ := hl'
    exact hnone _ _ _ _ _ rfl

/-- The head of a closure is found just where there is one. -/
theorem closureHead?_eq_some_iff {s s' : TokenStream} {params : List String} :
    s.closureHead? = some (params, s') ↔ ClosureHead params s.rest s' := by
  rw [closureHead?_take? s s.previous]
  constructor
  · intro h
    obtain ⟨s₁, hfound, hpair⟩ := Option.map_eq_some_iff.1 h
    obtain ⟨rfl, rfl⟩ := Prod.mk.inj hpair
    obtain ⟨s₂, htake, htake'⟩ := Option.bind_eq_some_iff.1 hfound
    obtain ⟨close, rest₁, hrest, hclose, rfl⟩ := take?_eq_some_iff.1 htake
    obtain ⟨arrow, rest, rfl, harrow, rfl⟩ := take?_eq_some_iff.1 htake'
    obtain ⟨header, trailing, hsplit, hheader⟩ := names_split s.rest
    have htokens : s.rest = header ++ close :: arrow :: rest := hsplit.trans (congrArg _ hrest)
    rw [htokens] at hheader ⊢
    exact .intro trailing hheader hclose harrow
  · generalize hrest : s.rest = tokens
    rintro @⟨trailing, header, rest, close, arrow, hheader, hclose, harrow⟩
    rw [names_header hheader hclose]
    exact Option.map_eq_some_iff.2 ⟨⟨some arrow, rest⟩,
      Option.bind_eq_some_iff.2 ⟨⟨some close, arrow :: rest⟩, if_pos hclose, if_pos harrow⟩, rfl⟩

/-! ## An attempt -/

/-- An attempt gives an expression or gives up; either way it stops somewhere, perhaps further on. -/
abbrev Attempt := TokenStream → Except ParseFault (Option Expr × TokenStream)

/-- An attempt that goes back to where it started when it gives up. -/
def rewinding (attempt : Attempt) : Attempt := fun s => do
  match ← attempt s with
  | (some e, s) => return (some e, s)
  | (none, _) => return (none, s)

/-- Tries to read at most so many names with commas between them, up to a closing parenthesis. -/
def tryNames : Nat → TokenStream → Option (List String) × TokenStream
  | 0, s => (none, s)
  | count + 1, s =>
    if (s.take? .closeParen).isSome then (some [], s)
    else
      match s.demandName with
      | .error _ => (none, s)
      | .ok (name, s) =>
        match s.take? .comma with
        | none => (some [name], s)
        | some s =>
          let (others, s) := tryNames count s
          (others.map (name :: ·), s)

/-- Tries to read the parameters of a closure after its opening parenthesis, up to the arrow. -/
def tryHead (s : TokenStream) : Option (List String) × TokenStream :=
  match tryNames s.rest.length s with
  | (none, s) => (none, s)
  | (some params, s) =>
    match s.take? .closeParen with
    | none => (none, s)
    | some s =>
      match s.take? .arrow with
      | none => (none, s)
      | some s => (some params, s)

/-- Tries to read a closure. -/
def tryClosure (read : ExprReader) : Attempt := fun s => do
  let s ← s.demand .openParen
  match s.tryHead with
  | (none, s) => return (none, s)
  | (some params, s) =>
    let (body, s) ← s.demandExpr read
    return (some (.closure params body), s)

/-- Reads an expression in parentheses. -/
def parens (read : ExprReader) (s : TokenStream) : Except ParseFault (Expr × TokenStream) := do
  let s ← s.demand .openParen
  let (e, s) ← s.demandExpr read
  let s ← s.demand .closeParen
  return (e, s)

/-- Tries to read a closure, and reads an expression in parentheses from the same place if there is
none. -/
def closureOrParens (read : ExprReader) (s : TokenStream) :
    Except ParseFault (Expr × TokenStream) := do
  match ← rewinding (tryClosure read) s with
  | (some e, s) => return (e, s)
  | (none, s) => s.parens read

section Names

variable {previous : Option Token} {token : Token} {rest : List Token} {name : String}

theorem tryNames_close (h : token.lexeme = .symbol .closeParen) (count : Nat) :
    tryNames (count + 1) ⟨previous, token :: rest⟩ = (some [], ⟨previous, token :: rest⟩) := by
  have htake : take? .closeParen ⟨previous, token :: rest⟩ = some ⟨some token, rest⟩ := if_pos h
  rw [tryNames, htake]
  rfl

theorem tryNames_none (hclose : token.lexeme ≠ .symbol .closeParen)
    (hname : ∀ name, token.lexeme ≠ .identifier name) (count : Nat) :
    tryNames (count + 1) ⟨previous, token :: rest⟩ = (none, ⟨previous, token :: rest⟩) := by
  have htake : take? .closeParen ⟨previous, token :: rest⟩ = none := if_neg hclose
  have hdemand : demandName ⟨previous, token :: rest⟩ = .error (.demanded .name (some token)) := by
    rw [demandName]
    dsimp only
    split
    · next heq => exact absurd heq (hname _)
    · rfl
  rw [tryNames, htake, hdemand]
  rfl

/-- After a name it goes on just where a comma is next. -/
theorem tryNames_name (h : token.lexeme = .identifier name) (count : Nat) :
    tryNames (count + 1) ⟨previous, token :: rest⟩ =
      match take? .comma ⟨some token, rest⟩ with
      | none => (some [name], ⟨some token, rest⟩)
      | some s => ((tryNames count s).1.map (name :: ·), (tryNames count s).2) := by
  have hclose : token.lexeme ≠ .symbol .closeParen := by
    rw [h]
    exact nofun
  have htake : take? .closeParen ⟨previous, token :: rest⟩ = none := if_neg hclose
  have hdemand : demandName ⟨previous, token :: rest⟩ = .ok (name, ⟨some token, rest⟩) := by
    rw [demandName]
    dsimp only
    rw [h]
  rw [tryNames, htake, hdemand]
  rfl

/-- An attempt at names reads them all or gives up, and then no closing parenthesis follows them. -/
theorem tryNames_names {count : Nat} (h : rest.length ≤ count) (previous : Option Token) :
    (∃ last, tryNames count ⟨previous, rest⟩ = (some (names rest).1, ⟨last, (names rest).2⟩)) ∨
      (∃ s, tryNames count ⟨previous, rest⟩ = (none, s)) ∧
        (names rest).2.head?.map (·.lexeme) ≠ some (.symbol .closeParen) := by
  induction count generalizing previous rest with
  | zero =>
    obtain rfl : rest = [] := List.eq_nil_of_length_eq_zero (Nat.le_zero.1 h)
    exact .inr ⟨⟨_, rfl⟩, nofun⟩
  | succ count ih =>
    obtain _ | ⟨token, rest⟩ := rest
    · exact .inr ⟨⟨_, rfl⟩, nofun⟩
    by_cases hname : ∃ name, token.lexeme = .identifier name
    · obtain ⟨name, hname⟩ := hname
      rw [tryNames_name hname]
      cases htake : take? .comma ⟨some token, rest⟩ with
      | none =>
        rw [names_last hname (take?_eq_none_iff.1 htake)]
        exact .inl ⟨_, rfl⟩
      | some s₁ =>
        obtain ⟨comma, rest₁, rfl, hcomma, rfl⟩ := take?_eq_some_iff.1 htake
        have hlength : rest₁.length ≤ count := by
          rw [List.length_cons, List.length_cons] at h
          omega
        rw [names_comma hname hcomma]
        dsimp only
        rcases ih hlength (some comma) with ⟨last, hothers⟩ | ⟨⟨s', hothers⟩, hnone⟩
        · rw [hothers]
          exact .inl ⟨last, rfl⟩
        · rw [hothers]
          exact .inr ⟨⟨s', rfl⟩, hnone⟩
    · have hnames : names (token :: rest) = ([], token :: rest) :=
        names_none fun name hhead => hname ⟨name, Option.some.inj hhead⟩
      rw [hnames]
      by_cases hclose : token.lexeme = .symbol .closeParen
      · exact .inl ⟨previous, tryNames_close hclose count⟩
      · refine .inr ⟨⟨_, tryNames_none hclose (not_exists.1 hname) count⟩, fun hhead => ?_⟩
        exact hclose (Option.some.inj hhead)

end Names

/-- An attempt at the head of a closure finds it or gives up. -/
theorem closureHead?_tryHead (s : TokenStream) :
    s.closureHead? = s.tryHead.1.map (·, s.tryHead.2) := by
  rw [tryHead]
  rcases tryNames_names (Nat.le_refl s.rest.length) s.previous with
    ⟨last, htry⟩ | ⟨⟨s', htry⟩, hnone⟩
  · rw [htry, closureHead?_take? s last]
    dsimp only
    cases take? .closeParen ⟨last, (names s.rest).2⟩ with
    | none => rfl
    | some s₁ =>
      dsimp only [Option.bind_some]
      cases s₁.take? .arrow <;> rfl
  · rw [htry, closureHead?_take? s none, take?_eq_none_iff.2 hnone]
    rfl

section Parenthesis

variable {s : TokenStream} {paren : Token} {rest : List Token} (read : ExprReader)
  (hs : s.rest = paren :: rest) (hparen : paren.lexeme = .symbol .openParen)
include hs hparen

theorem demand_openParen : s.demand .openParen = .ok ⟨some paren, rest⟩ := by
  rw [demand, take?_eq_some_iff.2 ⟨paren, rest, hs, hparen, rfl⟩]

/-- Trying a closure first and going back reads what a parenthesis starts. -/
theorem closureOrParens_eq : s.closureOrParens read = parenthesis read ⟨some paren, rest⟩ := by
  have hopen := demand_openParen hs hparen
  have hbind (f : Attempt) : (s.demand .openParen >>= f) = f ⟨some paren, rest⟩ := by
    rw [hopen]
    rfl
  rw [closureOrParens, rewinding, tryClosure, hbind, parenthesis, closureHead?_tryHead]
  rcases tryHead ⟨some paren, rest⟩ with ⟨_ | params, s₁⟩
  · change s.parens read = _
    rw [parens, hopen]
    rfl
  · dsimp only [Option.map_some]
    cases s₁.demandExpr read <;> rfl

/-- What an opening parenthesis starts is told by the tokens up to an arrow.  Where they make it a
closure, it is one of these parameters and of the expression after the arrow, or what fails there
fails; else it is an expression in parentheses. -/
theorem primary_openParen :
    primary read s = some <$> s.closureOrParens read ∧
    (∀ params s', ClosureHead params rest s' → primary read s = do
      let (body, s) ← s'.demandExpr read
      return some (.closure params body, s)) ∧
    ((∀ params s', ¬ ClosureHead params rest s') → primary read s = some <$> s.parens read) := by
  have hprimary : primary read s = some <$> parenthesis read ⟨some paren, rest⟩ := by
    rw [primary, hs]
    dsimp only
    rw [hparen]
  have hopen := demand_openParen hs hparen
  refine ⟨?_, fun params s' hhead => ?_, fun hnone => ?_⟩
  · rw [hprimary, closureOrParens_eq read hs hparen]
  · have hfound : closureHead? ⟨some paren, rest⟩ = some (params, s') :=
      closureHead?_eq_some_iff.2 hhead
    rw [hprimary, parenthesis, hfound]
    dsimp only
    cases s'.demandExpr read <;> rfl
  · have hnot : closureHead? ⟨some paren, rest⟩ = none :=
      Option.eq_none_iff_forall_ne_some.2 fun found hfound =>
        hnone found.1 found.2 (closureHead?_eq_some_iff.1 hfound)
    rw [hprimary, parenthesis, hnot, parens, hopen]
    rfl

end Parenthesis

/-- `(a,) => a` is a closure, and in `(a, 1)` a closing parenthesis is missing. -/
theorem primary_openParen_names :
    primary (expression 1) (ofTokens (Expr.tokensWith [.symbol .openParen, .identifier "a",
        .symbol .comma, .symbol .closeParen, .symbol .arrow, .identifier "a"])) =
      .ok (some (.closure ["a"] (.reference "a"), ⟨some ⟨.identifier "a", .start, .start⟩, []⟩)) ∧
    primary (expression 1) (ofTokens (Expr.tokensWith [.symbol .openParen, .identifier "a",
        .symbol .comma, .number 1, .symbol .closeParen])) =
      .error (.demanded (.symbol .closeParen) (some ⟨.symbol .comma, .start, .start⟩)) := by
  have hhead : ClosureHead ["a"] (Expr.tokensWith [.identifier "a", .symbol .comma] ++
      ⟨.symbol .closeParen, .start, .start⟩ :: ⟨.symbol .arrow, .start, .start⟩ ::
        Expr.tokensWith [.identifier "a"])
      ⟨some ⟨.symbol .arrow, .start, .start⟩, Expr.tokensWith [.identifier "a"]⟩ :=
    .intro true rfl rfl rfl
  constructor
  · exact (primary_openParen (expression 1) rfl rfl).2.1 _ _ hhead
  · refine ((primary_openParen (expression 1) rfl rfl).2.2 fun params s' hhead => ?_).trans rfl
    have hfound : closureHead? (ofTokens (Expr.tokensWith [.identifier "a", .symbol .comma,
        .number 1, .symbol .closeParen])) = some (params, s') := closureHead?_eq_some_iff.2 hhead
    cases hfound

end TokenStream

end Calculator
