import Calculator.Proofs.Expr.ReadBack
import Calculator.Proofs.Scan.Mark

/-
  Statements before a semicolon.  No expression goes on with a semicolon, so what is read of some
  tokens is read of them where a semicolon follows, whatever comes then (`expression_carries`).  So
  the statements of two programs with a semicolon between them are those of the one and then those of
  the other, where the first one does not end with a semicolon already
  (`statementsWithin_semicolon`).
-/

namespace Calculator

namespace Expr

theorem Derives.ne_nil {depth level : Nat} {ls : List Lexeme} {e : Expr}
    (h : Derives depth level ls e) : ls ≠ [] := by
  induction h with
  | binary hlevel hleft hright ih₁ ih₂ =>
    rw [List.append_assoc]
    exact List.append_ne_nil_of_left_ne_nil ih₁ _
  | _ => exact List.cons_ne_nil _ _

end Expr

namespace TokenStream

open Calculator.Expr

/-- Lexemes that no expression goes on with: none, or a semicolon first. -/
def Separated (more : List Lexeme) : Prop := ∀ l ∈ more.head?, l = .symbol .semicolon

/-- A stream with more lexemes after those of another one; what was read last is the same. -/
structure Extends (more : List Lexeme) (s t : TokenStream) : Prop where
  lexemes : t.lexemes = s.lexemes ++ more
  previous : t.previous.map (·.lexeme) = s.previous.map (·.lexeme)

/-- What a reader reads, it reads where more lexemes follow. -/
def Carries (more : List Lexeme) (read : ExprReader) : Prop :=
  ∀ {s s' t : TokenStream} {e : Expr}, read s = .ok (some (e, s')) →
    t.lexemes = s.lexemes ++ more → ∃ t', read t = .ok (some (e, t')) ∧ Extends more s' t'

/-! ## Single tokens -/

section Tokens

variable {more : List Lexeme} {s s' t : TokenStream}

theorem exists_of_extends {previous : Option Token} {token : Token} {rest : List Token}
    (ht : t.lexemes = lexemes ⟨previous, token :: rest⟩ ++ more) :
    ∃ previous' token' rest', t = ⟨previous', token' :: rest'⟩ ∧ token'.lexeme = token.lexeme ∧
      Extends more ⟨some token, rest⟩ ⟨some token', rest'⟩ := by
  obtain ⟨previous', token', rest', rfl, hl, hls⟩ := exists_of_lexemes ht
  exact ⟨previous', token', rest', rfl, hl, hls, congrArg some hl⟩

theorem take?_extends {sign : Symbol} (h : s.take? sign = some s')
    (ht : t.lexemes = s.lexemes ++ more) : ∃ t', t.take? sign = some t' ∧ Extends more s' t' := by
  obtain ⟨previous, rest⟩ := s
  cases rest with
  | nil => cases h
  | cons token rest =>
    obtain ⟨previous', token', rest', rfl, hl, hext⟩ := exists_of_extends ht
    simp only [take?] at h
    split at h
    · next hlexeme =>
      cases h
      exact ⟨_, if_pos (hl.trans hlexeme), hext⟩
    · cases h

theorem takeWord?_extends {word : Keyword} (h : s.takeWord? word = some s')
    (ht : t.lexemes = s.lexemes ++ more) :
    ∃ t', t.takeWord? word = some t' ∧ Extends more s' t' := by
  obtain ⟨previous, rest⟩ := s
  cases rest with
  | nil => cases h
  | cons token rest =>
    obtain ⟨previous', token', rest', rfl, hl, hext⟩ := exists_of_extends ht
    simp only [takeWord?] at h
    split at h
    · next hlexeme =>
      cases h
      exact ⟨_, if_pos (hl.trans hlexeme), hext⟩
    · cases h

theorem demand_extends {sign : Symbol} (h : s.demand sign = .ok s')
    (ht : t.lexemes = s.lexemes ++ more) : ∃ t', t.demand sign = .ok t' ∧ Extends more s' t' := by
  rw [demand] at h
  split at h
  · next htake =>
    cases h
    obtain ⟨t', htake', hext⟩ := take?_extends htake ht
    exact ⟨t', by rw [demand, htake'], hext⟩
  · cases h

theorem demandName_extends {name : String} (h : s.demandName = .ok (name, s'))
    (ht : t.lexemes = s.lexemes ++ more) :
    ∃ t', t.demandName = .ok (name, t') ∧ Extends more s' t' := by
  obtain ⟨previous, rest⟩ := s
  cases rest with
  | nil => cases h
  | cons token rest =>
    obtain ⟨previous', token', rest', rfl, hl, hext⟩ := exists_of_extends ht
    simp only [demandName] at h
    split at h
    · next hlexeme =>
      cases h
      refine ⟨_, ?_, hext⟩
      simp only [demandName, hl.trans hlexeme]
    · cases h

/-- No semicolon stands in the head of a closure. -/
theorem semicolon_notMem_head (trailing : Bool) (params : List String) :
    Lexeme.symbol .semicolon ∉
      listed .comma trailing (params.map fun name => [.identifier name]) ++
        [.symbol .closeParen, .symbol .arrow] := by
  intro hmem
  rcases List.mem_append.1 hmem with hmem | hmem
  · rcases of_mem_listed hmem with hcomma | ⟨part, hpart, hl⟩
    · cases hcomma
    · obtain ⟨name, -, rfl⟩ := List.mem_map.1 hpart
      cases List.mem_singleton.1 hl
  · simp at hmem

variable (hmore : Separated more)
include hmore

/-- A stream that goes on starts with the same lexeme, unless that is a semicolon. -/
theorem head?_of_extends {l : Lexeme} (hl : l ≠ .symbol .semicolon)
    (ht : t.lexemes = s.lexemes ++ more) (h : t.lexemes.head? = some l) :
    s.lexemes.head? = some l := by
  rw [ht] at h
  cases hs : s.lexemes with
  | nil =>
    rw [hs] at h
    exact absurd (hmore l h) hl
  | cons l' ls =>
    rw [hs] at h
    exact h

theorem take?_none_extends {sign : Symbol} (hsign : sign ≠ .semicolon)
    (h : s.take? sign = none) (ht : t.lexemes = s.lexemes ++ more) : t.take? sign = none := by
  refine take?_eq_none fun hhead => ?_
  obtain ⟨ls, hls⟩ := List.head?_eq_some_iff.1
    (head?_of_extends hmore (by simpa using hsign) ht hhead)
  obtain ⟨s', htake, -⟩ := take?_lexemes hls
  cases h.symm.trans htake

theorem takeWord?_none_extends {word : Keyword} (h : s.takeWord? word = none)
    (ht : t.lexemes = s.lexemes ++ more) : t.takeWord? word = none := by
  refine takeWord?_eq_none fun hhead => ?_
  obtain ⟨ls, hls⟩ := List.head?_eq_some_iff.1 (head?_of_extends hmore (by simp) ht hhead)
  obtain ⟨s', htake, -⟩ := takeWord?_lexemes hls
  cases h.symm.trans htake

/-- Lexemes without a semicolon among them are at the start of a stream as far as before the
lexemes that follow. -/
theorem starts_of_extends {ls : List Lexeme} (hls : .symbol .semicolon ∉ ls)
    (ht : t.lexemes = s.lexemes ++ more) (h : ls <+: t.lexemes) : ls <+: s.lexemes := by
  rw [ht] at h
  cases more with
  | nil => rwa [List.append_nil] at h
  | cons l more =>
    obtain rfl := hmore l rfl
    exact (prefix_append_cons_iff hls s.lexemes more).1 h

omit hmore in
theorem closureHead?_extends {params : List String} (h : s.closureHead? = some (params, s'))
    (ht : t.lexemes = s.lexemes ++ more) :
    ∃ t', t.closureHead? = some (params, t') ∧ t'.lexemes = s'.lexemes ++ more := by
  obtain ⟨trailing, hs⟩ := closureHead?_sound h
  rw [hs, List.append_assoc, List.cons_append, List.cons_append] at ht
  exact closureHead?_listed ht

/-- A parenthesis that opens no closure opens none where a semicolon follows. -/
theorem closureHead?_none_extends (h : s.closureHead? = none)
    (ht : t.lexemes = s.lexemes ++ more) : t.closureHead? = none := by
  cases htake : t.closureHead? with
  | none => rfl
  | some found =>
    obtain ⟨params, t'⟩ := found
    obtain ⟨trailing, hhead⟩ := closureHead?_sound htake
    obtain ⟨rest, hrest⟩ := starts_of_extends hmore (semicolon_notMem_head _ _) ht
      ⟨t'.lexemes, by rw [hhead, List.append_assoc]; rfl⟩
    rw [List.append_assoc] at hrest
    obtain ⟨s', hs', -⟩ := closureHead?_listed hrest.symm
    cases h.symm.trans hs'

end Tokens

/-! ## Readers -/

section Readers

variable {more : List Lexeme} {read : ExprReader} {s s' t : TokenStream} {e : Expr} {es : List Expr}
  (hmore : Separated more) (hread : Carries more read)
include hread

theorem demandExpr_extends (h : s.demandExpr read = .ok (e, s'))
    (ht : t.lexemes = s.lexemes ++ more) :
    ∃ t', t.demandExpr read = .ok (e, t') ∧ Extends more s' t' := by
  obtain ⟨t', he, hext⟩ := hread (demandExpr_ok.1 h) ht
  exact ⟨t', demandExpr_ok.2 he, hext⟩

theorem assignment_extends (h : s.assignment read = .ok (e, s'))
    (ht : t.lexemes = s.lexemes ++ more) :
    ∃ t', t.assignment read = .ok (e, t') ∧ Extends more s' t' := by
  obtain ⟨⟨name, s₁⟩, hname, h⟩ := bind_eq_ok.1 h
  obtain ⟨s₂, hassign, h⟩ := bind_eq_ok.1 h
  obtain ⟨⟨value, s₃⟩, hvalue, h⟩ := bind_eq_ok.1 h
  cases h
  obtain ⟨t₁, hname', hext₁⟩ := demandName_extends hname ht
  obtain ⟨t₂, hassign', hext₂⟩ := demand_extends hassign hext₁.lexemes
  obtain ⟨t₃, hvalue', hext₃⟩ := demandExpr_extends hread hvalue hext₂.lexemes
  refine ⟨t₃, ?_, hext₃⟩
  exact bind_eq_ok.2 ⟨_, hname', bind_eq_ok.2 ⟨_, hassign', bind_eq_ok.2 ⟨_, hvalue', rfl⟩⟩⟩

theorem operand_extends {f : Builtin} (h : s.operand read f = .ok (e, s'))
    (ht : t.lexemes = s.lexemes ++ more) :
    ∃ t', t.operand read f = .ok (e, t') ∧ Extends more s' t' := by
  obtain ⟨s₁, hopen, h⟩ := bind_eq_ok.1 h
  obtain ⟨⟨argument, s₂⟩, hargument, h⟩ := bind_eq_ok.1 h
  obtain ⟨s₃, hclose, h⟩ := bind_eq_ok.1 h
  cases h
  obtain ⟨t₁, hopen', hext₁⟩ := demand_extends hopen ht
  obtain ⟨t₂, hargument', hext₂⟩ := demandExpr_extends hread hargument hext₁.lexemes
  obtain ⟨t₃, hclose', hext₃⟩ := demand_extends hclose hext₂.lexemes
  refine ⟨t₃, ?_, hext₃⟩
  exact bind_eq_ok.2 ⟨_, hopen', bind_eq_ok.2 ⟨_, hargument', bind_eq_ok.2 ⟨_, hclose', rfl⟩⟩⟩

omit hread in
theorem random_extends (h : s.random = .ok (e, s')) (ht : t.lexemes = s.lexemes ++ more) :
    ∃ t', t.random = .ok (e, t') ∧ Extends more s' t' := by
  obtain ⟨s₁, hopen, h⟩ := bind_eq_ok.1 h
  obtain ⟨s₂, hclose, h⟩ := bind_eq_ok.1 h
  cases h
  obtain ⟨t₁, hopen', hext₁⟩ := demand_extends hopen ht
  obtain ⟨t₂, hclose', hext₂⟩ := demand_extends hclose hext₁.lexemes
  exact ⟨t₂, bind_eq_ok.2 ⟨_, hopen', bind_eq_ok.2 ⟨_, hclose', rfl⟩⟩, hext₂⟩

include hmore

/-- Items are read up to a token that stops them, so that token is there. -/
theorem items_extends {separator closer : Symbol} (hcloser : closer ≠ .semicolon)
    {count count' : Nat} (hcount : count ≤ count')
    (h : items read separator closer count s = .ok (es, s')) (hs' : s'.lexemes ≠ [])
    (ht : t.lexemes = s.lexemes ++ more) :
    ∃ t', items read separator closer count' t = .ok (es, t') ∧
      t'.lexemes = s'.lexemes ++ more := by
  induction count generalizing s t es count' with
  | zero =>
    rw [items] at h
    split at h
    · next hclose =>
      cases h
      obtain ⟨s₁, hs₁⟩ := Option.isSome_iff_exists.1 hclose
      obtain ⟨t₁, ht₁, -⟩ := take?_extends hs₁ ht
      refine ⟨t, ?_, ht⟩
      cases count' with
      | zero => rw [items, ht₁]; rfl
      | succ count' => rw [items, ht₁]; rfl
    · cases h
  | succ count ih =>
    obtain ⟨count', rfl⟩ : ∃ k, count' = k + 1 := ⟨count' - 1, by omega⟩
    rw [items] at h ⊢
    cases hclose : s.take? closer with
    | some s₁ =>
      rw [hclose] at h
      cases h
      obtain ⟨t₁, ht₁, -⟩ := take?_extends hclose ht
      exact ⟨t, by rw [ht₁]; rfl, ht⟩
    | none =>
      rw [hclose] at h
      obtain ⟨⟨e, s₁⟩, he, h⟩ := bind_eq_ok.1 h
      obtain ⟨t₁, he', hext₁⟩ := demandExpr_extends hread he ht
      rw [take?_none_extends hmore hcloser hclose ht]
      dsimp only at h
      cases htake : s₁.take? separator with
      | none =>
        rw [htake] at h
        cases h
        have hnone : t₁.take? separator = none := by
          refine take?_eq_none fun hhead => ?_
          rw [hext₁.lexemes, List.head?_append_of_ne_nil _ hs'] at hhead
          obtain ⟨ls, hls⟩ := List.head?_eq_some_iff.1 hhead
          obtain ⟨s₂, hs₂, -⟩ := take?_lexemes hls
          cases htake.symm.trans hs₂
        refine ⟨t₁, bind_eq_ok.2 ⟨_, he', ?_⟩, hext₁.lexemes⟩
        dsimp only
        rw [hnone]
        rfl
      | some s₂ =>
        rw [htake] at h
        obtain ⟨⟨es', s₃⟩, hes, h⟩ := bind_eq_ok.1 h
        cases h
        obtain ⟨t₂, htake', hext₂⟩ := take?_extends htake hext₁.lexemes
        obtain ⟨t₃, hes', ht₃⟩ := ih (Nat.le_of_succ_le_succ hcount) hes hext₂.lexemes
        refine ⟨t₃, bind_eq_ok.2 ⟨_, he', ?_⟩, ht₃⟩
        dsimp only
        rw [htake']
        exact bind_eq_ok.2 ⟨_, hes', rfl⟩

theorem bracketed_extends {separator closer : Symbol} (hcloser : closer ≠ .semicolon)
    (h : s.bracketed read separator closer = .ok (es, s')) (ht : t.lexemes = s.lexemes ++ more) :
    ∃ t', t.bracketed read separator closer = .ok (es, t') ∧ Extends more s' t' := by
  obtain ⟨⟨es', s₁⟩, hes, h⟩ := bind_eq_ok.1 h
  obtain ⟨s₂, hclose, h⟩ := bind_eq_ok.1 h
  cases h
  have hcount : s.rest.length ≤ t.rest.length := by
    have hlength := congrArg List.length ht
    simp only [lexemes, List.length_append, List.length_map] at hlength
    omega
  have hne : s₁.lexemes ≠ [] := by
    rw [demand_sound hclose]
    exact List.cons_ne_nil _ _
  obtain ⟨t₁, hes', ht₁⟩ := items_extends hmore hread hcloser hcount hes hne ht
  obtain ⟨t₂, hclose', hext₂⟩ := demand_extends hclose ht₁
  exact ⟨t₂, bind_eq_ok.2 ⟨_, hes', bind_eq_ok.2 ⟨_, hclose', rfl⟩⟩, hext₂⟩

theorem parenthesis_extends (h : s.parenthesis read = .ok (e, s'))
    (ht : t.lexemes = s.lexemes ++ more) :
    ∃ t', t.parenthesis read = .ok (e, t') ∧ Extends more s' t' := by
  rw [parenthesis] at h
  split at h
  · next params s₁ hhead =>
    obtain ⟨⟨body, s₂⟩, hbody, h⟩ := bind_eq_ok.1 h
    cases h
    obtain ⟨t₁, hhead', ht₁⟩ := closureHead?_extends hhead ht
    obtain ⟨t₂, hbody', hext₂⟩ := demandExpr_extends hread hbody ht₁
    refine ⟨t₂, ?_, hext₂⟩
    rw [parenthesis, hhead']
    exact bind_eq_ok.2 ⟨_, hbody', rfl⟩
  · next hhead =>
    obtain ⟨⟨e', s₁⟩, he, h⟩ := bind_eq_ok.1 h
    obtain ⟨s₂, hclose, h⟩ := bind_eq_ok.1 h
    cases h
    obtain ⟨t₁, he', hext₁⟩ := demandExpr_extends hread he ht
    obtain ⟨t₂, hclose', hext₂⟩ := demand_extends hclose hext₁.lexemes
    refine ⟨t₂, ?_, hext₂⟩
    rw [parenthesis, closureHead?_none_extends hmore hhead ht]
    exact bind_eq_ok.2 ⟨_, he', bind_eq_ok.2 ⟨_, hclose', rfl⟩⟩

theorem named_extends {name : String} (h : s.named read name = .ok (e, s'))
    (hext : Extends more s t) : ∃ t', t.named read name = .ok (e, t') ∧ Extends more s' t' := by
  rw [named] at h
  split at h
  · next hopen =>
    cases h
    refine ⟨t, ?_, hext⟩
    rw [named, take?_none_extends hmore (by decide) hopen hext.lexemes]
    rfl
  · next s₁ hopen =>
    obtain ⟨⟨arguments, s₂⟩, harguments, h⟩ := bind_eq_ok.1 h
    cases h
    obtain ⟨t₁, hopen', hext₁⟩ := take?_extends hopen hext.lexemes
    obtain ⟨t₂, harguments', hext₂⟩ :=
      bracketed_extends hmore hread (by decide) harguments hext₁.lexemes
    refine ⟨t₂, ?_, hext₂⟩
    rw [named, hopen']
    exact bind_eq_ok.2 ⟨_, harguments', rfl⟩

theorem conditional_extends (h : s.conditional read = .ok (e, s'))
    (ht : t.lexemes = s.lexemes ++ more) :
    ∃ t', t.conditional read = .ok (e, t') ∧ Extends more s' t' := by
  obtain ⟨s₁, hopen, h⟩ := bind_eq_ok.1 h
  obtain ⟨⟨test, s₂⟩, htest, h⟩ := bind_eq_ok.1 h
  obtain ⟨s₃, hclose, h⟩ := bind_eq_ok.1 h
  obtain ⟨⟨consequent, s₄⟩, hconsequent, h⟩ := bind_eq_ok.1 h
  obtain ⟨t₁, hopen', hext₁⟩ := demand_extends hopen ht
  obtain ⟨t₂, htest', hext₂⟩ := demandExpr_extends hread htest hext₁.lexemes
  obtain ⟨t₃, hclose', hext₃⟩ := demand_extends hclose hext₂.lexemes
  obtain ⟨t₄, hconsequent', hext₄⟩ := demandExpr_extends hread hconsequent hext₃.lexemes
  -- What a condition is depends on the token after its consequent.
  have hcondition {result : Expr × TokenStream} : _ → t.conditional read = .ok result := fun h =>
    bind_eq_ok.2 ⟨_, hopen', bind_eq_ok.2 ⟨_, htest', bind_eq_ok.2 ⟨_, hclose',
      bind_eq_ok.2 ⟨_, hconsequent', h⟩⟩⟩⟩
  dsimp only at h
  split at h
  · next helse =>
    cases h
    refine ⟨t₄, hcondition ?_, hext₄⟩
    dsimp only
    rw [takeWord?_none_extends hmore helse hext₄.lexemes]
    rfl
  · next s₅ helse =>
    obtain ⟨⟨alternate, s₆⟩, halternate, h⟩ := bind_eq_ok.1 h
    cases h
    obtain ⟨t₅, helse', hext₅⟩ := takeWord?_extends helse hext₄.lexemes
    obtain ⟨t₆, halternate', hext₆⟩ := demandExpr_extends hread halternate hext₅.lexemes
    refine ⟨t₆, hcondition ?_, hext₆⟩
    dsimp only
    rw [helse']
    exact bind_eq_ok.2 ⟨_, halternate', rfl⟩

/-- An operand is read where a semicolon follows, given that what is nested in it is. -/
theorem primary_carries : Carries more (primary read) := by
  intro s s' t e h ht
  obtain ⟨previous, rest⟩ := s
  cases rest with
  | nil => cases h
  | cons token rest =>
    obtain ⟨previous', token', rest', rfl, hl, hext⟩ := exists_of_extends ht
    obtain ⟨lexeme, start, stop⟩ := token
    obtain ⟨lexeme', start', stop'⟩ := token'
    obtain rfl : lexeme' = lexeme := hl
    simp only [primary] at h ⊢
    split at h
    · obtain ⟨⟨body, s₁⟩, hbody, h⟩ := bind_eq_ok.1 h
      cases h
      obtain ⟨t₁, hbody', hext₁⟩ := bracketed_extends hmore hread (by decide) hbody hext.lexemes
      exact ⟨t₁, bind_eq_ok.2 ⟨_, hbody', rfl⟩, hext₁⟩
    · obtain ⟨⟨e', s₁⟩, he, h⟩ := map_eq_ok.1 h
      cases h
      obtain ⟨t₁, he', hext₁⟩ := parenthesis_extends hmore hread he hext.lexemes
      exact ⟨t₁, map_eq_ok.2 ⟨_, he', rfl⟩, hext₁⟩
    · cases h
    · obtain ⟨⟨e', s₁⟩, he, h⟩ := map_eq_ok.1 h
      cases h
      obtain ⟨t₁, he', hext₁⟩ := assignment_extends hread he hext.lexemes
      exact ⟨t₁, map_eq_ok.2 ⟨_, he', rfl⟩, hext₁⟩
    · obtain ⟨⟨e', s₁⟩, he, h⟩ := map_eq_ok.1 h
      cases h
      obtain ⟨t₁, he', hext₁⟩ := conditional_extends hmore hread he hext.lexemes
      exact ⟨t₁, map_eq_ok.2 ⟨_, he', rfl⟩, hext₁⟩
    · obtain ⟨⟨e', s₁⟩, he, h⟩ := map_eq_ok.1 h
      cases h
      obtain ⟨t₁, he', hext₁⟩ := random_extends he hext.lexemes
      exact ⟨t₁, map_eq_ok.2 ⟨_, he', rfl⟩, hext₁⟩
    · split at h
      · next f hf =>
        obtain ⟨⟨e', s₁⟩, he, h⟩ := map_eq_ok.1 h
        cases h
        obtain ⟨t₁, he', hext₁⟩ := operand_extends hread he hext.lexemes
        exact ⟨t₁, map_eq_ok.2 ⟨_, he', rfl⟩, hext₁⟩
      · next hf =>
        obtain ⟨x, hx, heq⟩ := Option.map_eq_some_iff.1 (Except.ok.inj h)
        cases heq
        rw [hx]
        exact ⟨_, rfl, hext⟩
    · cases h
      exact ⟨_, rfl, hext⟩
    · obtain ⟨⟨e', s₁⟩, he, h⟩ := map_eq_ok.1 h
      cases h
      obtain ⟨t₁, he', hext₁⟩ := named_extends hmore hread he hext
      exact ⟨t₁, map_eq_ok.2 ⟨_, he', rfl⟩, hext₁⟩

end Readers

/-! ## Chains -/

section Chains

variable {more : List Lexeme} {read : ExprReader} {s s' t : TokenStream} {op : Operator}
  {tail : List (Operator × Expr)}

theorem operator?_extends (h : s.operator? = .ok (some (op, s'))) (hext : Extends more s t) :
    ∃ t', t.operator? = .ok (some (op, t')) ∧ t'.lexemes = s'.lexemes ++ more := by
  obtain ⟨previous, rest⟩ := s
  cases rest with
  | nil => cases h
  | cons token rest =>
    obtain ⟨previous', token', rest', rfl, hl, hnext⟩ := exists_of_extends hext.lexemes
    obtain ⟨lexeme, start, stop⟩ := token
    obtain ⟨lexeme', start', stop'⟩ := token'
    obtain rfl : lexeme' = lexeme := hl
    simp only [operator?] at h ⊢
    split at h
    · cases h
      exact ⟨_, rfl, hext.lexemes⟩
    · obtain ⟨op', hop, heq⟩ := Option.map_eq_some_iff.1 (Except.ok.inj h)
      cases heq
      rw [hop]
      exact ⟨_, rfl, hnext.lexemes⟩
    · have hprevious : previous'.map (·.lexeme) = previous.map (·.lexeme) := hext.previous
      cases previous with
      | none => cases h
      | some left =>
        obtain ⟨left', rfl, hleft⟩ := Option.map_eq_some_iff.1 hprevious
        dsimp only at h hleft ⊢
        rw [hleft]
        split at h
        · next hliteral =>
          cases h
          rw [if_pos hliteral]
          exact ⟨_, rfl, hext.lexemes⟩
        · cases h
    · cases h

/-- A chain that stops, stops where a semicolon follows. -/
theorem operator?_none_extends (hmore : Separated more) (h : s.operator? = .ok none)
    (hext : Extends more s t) : t.operator? = .ok none := by
  obtain ⟨previous, rest⟩ := s
  cases rest with
  | nil =>
    refine Stops.operator? fun l hl => ?_
    rw [hext.lexemes] at hl
    obtain rfl := hmore l hl
    simp
  | cons token rest =>
    obtain ⟨previous', token', rest', rfl, hl, hnext⟩ := exists_of_extends hext.lexemes
    obtain ⟨lexeme, start, stop⟩ := token
    obtain ⟨lexeme', start', stop'⟩ := token'
    obtain rfl : lexeme' = lexeme := hl
    simp only [operator?] at h ⊢
    split at h
    · cases h
    · rw [Option.map_eq_none_iff.1 (Except.ok.inj h)]
      rfl
    · have hprevious : previous'.map (·.lexeme) = previous.map (·.lexeme) := hext.previous
      cases previous with
      | none =>
        obtain rfl := Option.map_eq_none_iff.1 hprevious
        rfl
      | some left =>
        dsimp only at h
        split at h <;> cases h
    · rfl

theorem TailReads.extends (hread : Carries more read) (h : TailReads read s tail s')
    (hext : Extends more s t) : ∃ t', TailReads read t tail t' ∧ Extends more s' t' := by
  induction h generalizing t with
  | nil => exact ⟨t, .nil, hext⟩
  | cons hop he hlt h ih =>
    obtain ⟨t₁, hop', ht₁⟩ := operator?_extends hop hext
    obtain ⟨t₂, he', hext₂⟩ := hread he ht₁
    obtain ⟨t₃, htail', hext₃⟩ := ih hext₂
    refine ⟨t₃, .cons hop' he' ?_ htail', hext₃⟩
    rw [hext₂.lexemes, hext.lexemes, List.length_append, List.length_append]
    omega

/-- What a loop that is counted by the tokens left reads, it reads up to where the chain stops. -/
theorem tailReads_of_chainTail
    (hread : ∀ {s s' : TokenStream} {e : Expr}, read s = .ok (some (e, s')) →
      s'.lexemes.length < s.lexemes.length) {count : Nat} (hcount : s.lexemes.length ≤ count)
    (h : chainTail read count s = .ok (tail, s')) :
    TailReads read s tail s' ∧ s'.operator? = .ok none := by
  induction count generalizing s tail with
  | zero =>
    cases h
    refine ⟨.nil, Stops.operator? ?_⟩
    rw [List.eq_nil_of_length_eq_zero (Nat.le_zero.1 hcount)]
    exact .nil
  | succ count ih =>
    obtain ⟨found, hop, h⟩ := bind_eq_ok.1 h
    cases found with
    | none =>
      cases h
      exact ⟨.nil, hop⟩
    | some found =>
      obtain ⟨op, s₁⟩ := found
      obtain ⟨⟨e, s₂⟩, he, h⟩ := bind_eq_ok.1 h
      obtain ⟨⟨others, s₃⟩, hothers, h⟩ := bind_eq_ok.1 h
      cases h
      have hshort := hread (demandExpr_ok.1 he)
      have hlt : s₂.lexemes.length < s.lexemes.length := by
        rw [operator?_sound hop, List.length_append]
        omega
      obtain ⟨htail, hstop⟩ := ih (by omega) hothers
      exact ⟨.cons hop (demandExpr_ok.1 he) hlt htail, hstop⟩

theorem primary_length {depth : Nat} {e : Expr}
    (h : primary (expression depth) s = .ok (some (e, s'))) :
    s'.lexemes.length < s.lexemes.length := by
  obtain ⟨ls, hls, hderives⟩ := primary_sound (expression_sound depth) h
  have hpos := List.length_pos_of_ne_nil hderives.ne_nil
  rw [hls, List.length_append]
  omega

/-- What is read of some tokens as an expression is read where a semicolon follows. -/
theorem expression_carries (hmore : Separated more) (depth : Nat) :
    Carries more (expression depth) := by
  induction depth with
  | zero =>
    intro s s' t e h
    cases h
  | succ depth ih =>
    intro s s' t e h ht
    obtain ⟨found, hhead, h⟩ := bind_eq_ok.1 h
    cases found with
    | none => cases h
    | some found =>
      obtain ⟨head, s₁⟩ := found
      obtain ⟨⟨tail, s₂⟩, htail, h⟩ := bind_eq_ok.1 h
      cases h
      have hprimary : Carries more (primary (expression depth)) := primary_carries hmore ih
      obtain ⟨t₁, hhead', hext₁⟩ := hprimary hhead ht
      obtain ⟨hreads, hstop⟩ :=
        tailReads_of_chainTail primary_length (Nat.le_of_eq (List.length_map _)) htail
      obtain ⟨t₂, hreads', hext₂⟩ := hreads.extends hprimary hext₁
      have htail' := hreads'.chainTail (operator?_none_extends hmore hstop hext₂) _
        (Nat.le_of_eq (List.length_map _))
      exact ⟨t₂, bind_eq_ok.2 ⟨_, hhead', bind_eq_ok.2 ⟨_, htail', rfl⟩⟩, hext₂⟩

end Chains

/-! ## Statements -/

section Statements

variable {read : ExprReader} {means : List Lexeme → Expr → Prop} {s s' t : TokenStream}
  {es : List Expr} {count : Nat}

theorem statements_nil (h : statements read count s = .ok ([], s')) : s' = s := by
  cases count with
  | zero =>
    cases h
    rfl
  | succ count =>
    obtain ⟨found, he, h⟩ := bind_eq_ok.1 h
    cases found with
    | none =>
      cases h
      rfl
    | some found =>
      dsimp only at h
      split at h
      · cases h
      · obtain ⟨found', -, h⟩ := bind_eq_ok.1 h
        cases h

/-- Statements that end without a semicolon are read up to the semicolon after them, and what
follows is read as more statements. -/
theorem statements_semicolon {others : List Lexeme}
    (hcarries : Carries (.symbol .semicolon :: others) read) (hsound : Sound read means)
    (h : statements read count s = .ok (es, s')) (hne : es ≠ []) (hs' : s'.rest = [])
    (hlast : s.lexemes.getLast? ≠ some (.symbol .semicolon))
    (ht : t.lexemes = s.lexemes ++ .symbol .semicolon :: others) :
    es.length ≤ count ∧ ∃ t', t'.lexemes = others ∧
      ∀ {count' : Nat} {es' : List Expr} {t'' : TokenStream},
        statements read count' t' = .ok (es', t'') →
          statements read (es.length + count') t = .ok (es ++ es', t'') := by
  induction count generalizing s t es with
  | zero =>
    cases h
    exact absurd rfl hne
  | succ count ih =>
    obtain ⟨found, he, h⟩ := bind_eq_ok.1 h
    cases found with
    | none =>
      cases h
      exact absurd rfl hne
    | some found =>
      obtain ⟨e, s₁⟩ := found
      obtain ⟨t₁, he', hext₁⟩ := hcarries he ht
      obtain ⟨ls, hls, -⟩ := hsound he
      dsimp only at h
      split at h
      · cases h
        have ht₁ : t₁.lexemes = .symbol .semicolon :: others := by
          rw [hext₁.lexemes, lexemes, hs']
          rfl
        obtain ⟨t₂, htake, ht₂⟩ := take?_lexemes ht₁
        refine ⟨Nat.succ_pos _, t₂, ht₂, fun {count' es' t''} hothers => ?_⟩
        rw [List.length_singleton, Nat.add_comm]
        refine bind_eq_ok.2 ⟨_, he', ?_⟩
        dsimp only
        rw [htake]
        exact bind_eq_ok.2 ⟨_, hothers, rfl⟩
      · next s₂ htake =>
        obtain ⟨⟨es', s₃⟩, hes, h⟩ := bind_eq_ok.1 h
        cases h
        have hlast' : s.lexemes.getLast? =
            some (s₂.lexemes.getLast?.getD (.symbol .semicolon)) := by
          rw [hls, take?_sound htake, List.getLast?_append, List.getLast?_cons]
          rfl
        have hne' : es' ≠ [] := by
          rintro rfl
          refine hlast ?_
          rw [hlast', ← statements_nil hes, lexemes, hs']
          rfl
        have hlast₂ : s₂.lexemes.getLast? ≠ some (.symbol .semicolon) := by
          intro heq
          exact hlast (by rw [hlast', heq]; rfl)
        obtain ⟨t₂, htake', hext₂⟩ := take?_extends htake hext₁.lexemes
        obtain ⟨hlength, t₃, ht₃, hothers⟩ := ih hes hne' hlast₂ hext₂.lexemes
        refine ⟨Nat.succ_le_succ hlength, t₃, ht₃, fun {count' es'' t''} hmore => ?_⟩
        rw [List.length_cons, Nat.add_right_comm]
        refine bind_eq_ok.2 ⟨_, he', ?_⟩
        dsimp only
        rw [htake']
        exact bind_eq_ok.2 ⟨_, hothers hmore, rfl⟩

/-- Statements that are all that is left are read from tokens with the same lexemes. -/
theorem statements_lexemes_eq (hcarries : Carries [] read)
    (hnil : ∀ s : TokenStream, s.rest = [] → read s = .ok none)
    (h : statements read count s = .ok (es, s')) (hs' : s'.rest = []) (ht : t.lexemes = s.lexemes)
    {count' : Nat} (hcount : count ≤ count') :
    ∃ t', statements read count' t = .ok (es, t') ∧ t'.rest = [] := by
  have rest_nil {s t : TokenStream} (hs : s.rest = []) (ht : t.lexemes = s.lexemes) :
      t.rest = [] := by
    rw [lexemes, lexemes, hs] at ht
    exact List.map_eq_nil_iff.1 ht
  have done {s t : TokenStream} (hs : s.rest = []) (ht : t.lexemes = s.lexemes) (count' : Nat) :
      ∃ t', statements read count' t = .ok ([], t') ∧ t'.rest = [] := by
    refine ⟨t, ?_, rest_nil hs ht⟩
    cases count' with
    | zero => rfl
    | succ count' => exact bind_eq_ok.2 ⟨_, hnil t (rest_nil hs ht), rfl⟩
  induction count generalizing s t es count' with
  | zero =>
    cases h
    exact done hs' ht count'
  | succ count ih =>
    obtain ⟨count', rfl⟩ : ∃ k, count' = k + 1 := ⟨count' - 1, by omega⟩
    obtain ⟨found, he, h⟩ := bind_eq_ok.1 h
    cases found with
    | none =>
      cases h
      exact done hs' ht _
    | some found =>
      obtain ⟨e, s₁⟩ := found
      obtain ⟨t₁, he', hext₁⟩ := hcarries he (ht.trans (List.append_nil _).symm)
      dsimp only at h
      split at h
      · cases h
        have ht₁ : t₁.rest = [] := rest_nil hs' (hext₁.lexemes.trans (List.append_nil _))
        have hnone : t₁.take? .semicolon = none := take?_eq_none (by rw [lexemes, ht₁]; simp)
        refine ⟨t₁, bind_eq_ok.2 ⟨_, he', ?_⟩, ht₁⟩
        dsimp only
        rw [hnone]
        rfl
      · next s₂ htake =>
        obtain ⟨⟨es', s₃⟩, hes, h⟩ := bind_eq_ok.1 h
        cases h
        obtain ⟨t₂, htake', hext₂⟩ := take?_extends htake hext₁.lexemes
        obtain ⟨t₃, hes', ht₃⟩ := ih hes (hext₂.lexemes.trans (List.append_nil _))
          (Nat.le_of_succ_le_succ hcount)
        refine ⟨t₃, bind_eq_ok.2 ⟨_, he', ?_⟩, ht₃⟩
        dsimp only
        rw [htake']
        exact bind_eq_ok.2 ⟨_, hes', rfl⟩

end Statements

theorem expression_nil {depth : Nat} (hdepth : 0 < depth) (s : TokenStream) (h : s.rest = []) :
    expression depth s = .ok none := by
  obtain ⟨depth, rfl⟩ := Nat.exists_eq_add_of_lt hdepth
  obtain ⟨previous, rest⟩ := s
  cases h
  rfl

end TokenStream

namespace Expr

open TokenStream

theorem statementsWithin_ok {depth : Nat} {tokens : List Token} {es : List Expr} :
    statementsWithin depth tokens = .ok es ↔ ∃ s,
      (TokenStream.ofTokens tokens).statements (expression depth) tokens.length = .ok (es, s) ∧
        s.rest = [] := by
  constructor
  · intro h
    obtain ⟨⟨es', s⟩, hes, h⟩ := bind_eq_ok.1 h
    dsimp only at h
    split at h
    · next hrest =>
      cases h
      exact ⟨s, hes, hrest⟩
    · cases h
  · rintro ⟨s, hes, hrest⟩
    refine bind_eq_ok.2 ⟨_, hes, ?_⟩
    dsimp only
    rw [hrest]
    rfl

/-- The statements of two programs with a semicolon between them are those of the one and then those
of the other, unless the first one ends with a semicolon. -/
theorem statementsWithin_semicolon {depth : Nat} {first second tokens : List Token}
    {es es' : List Expr} (hdepth : 0 < depth) (h : statementsWithin depth first = .ok es)
    (h' : statementsWithin depth second = .ok es') (hne : es ≠ [])
    (hlast : (first.map (·.lexeme)).getLast? ≠ some (.symbol .semicolon))
    (htokens : tokens.map (·.lexeme) =
      first.map (·.lexeme) ++ .symbol .semicolon :: second.map (·.lexeme)) :
    statementsWithin depth tokens = .ok (es ++ es') := by
  obtain ⟨s, hes, hs⟩ := statementsWithin_ok.1 h
  obtain ⟨s', hes', hs'⟩ := statementsWithin_ok.1 h'
  have hmore {others : List Lexeme} : Separated (.symbol .semicolon :: others) := by
    rintro _ ⟨⟩
    rfl
  obtain ⟨hlength, t, ht, hothers⟩ := statements_semicolon (expression_carries hmore depth)
    (expression_sound depth) hes hne hs hlast (t := .ofTokens tokens) htokens
  have hcount : tokens.length = es.length + (tokens.length - es.length) ∧
      second.length ≤ tokens.length - es.length := by
    have heq := congrArg List.length htokens
    simp only [List.length_map, List.length_append, List.length_cons] at heq
    omega
  obtain ⟨t', hes'', ht'⟩ := statements_lexemes_eq (expression_carries (by rintro _ ⟨⟩) depth)
    (expression_nil hdepth) hes' hs' ht hcount.2
  refine statementsWithin_ok.2 ⟨t', ?_, ht'⟩
  rw [hcount.1]
  exact hothers hes''

end Expr

end Calculator
