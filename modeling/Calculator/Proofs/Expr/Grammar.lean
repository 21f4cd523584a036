import Calculator.Expr.OfTokens
import Calculator.Proofs.Bind

/-
  The grammar that the parser accepts.  `Derives depth level ls e` says that the lexemes `ls` are
  an expression `e`, made of operators of at least the class `level`, in which expressions nest at
  most `depth` deep.  An operand is derived at every level, and an operation at the levels up to its
  class: its left operand at its class and its right one above.  Whatever `expression depth` reads
  is derived at level zero (`expression_sound`).
-/

namespace Calculator

/-- What an operator is written with. -/
def Operator.lexemes : Operator → List Lexeme
  | .juxtaposed => []
  | op => [.symbol op.symbol]

/-- Parts with a separator between each two, and perhaps another one after the last. -/
def listed (separator : Symbol) (trailing : Bool) : List (List Lexeme) → List Lexeme
  | [] => []
  | [part] => part ++ if trailing then [.symbol separator] else []
  | part :: parts => part ++ .symbol separator :: listed separator trailing parts

theorem mem_listed {separator : Symbol} {trailing : Bool} {parts : List (List Lexeme)}
    {part : List Lexeme} {l : Lexeme} (hpart : part ∈ parts) (hl : l ∈ part) :
    l ∈ listed separator trailing parts := by
  fun_induction listed separator trailing parts with
  | case1 => cases hpart
  | case2 part' =>
    obtain rfl := List.mem_singleton.1 hpart
    exact List.mem_append_left _ hl
  | case3 part' parts hne ih =>
    rcases List.mem_cons.1 hpart with rfl | hpart
    · exact List.mem_append_left _ hl
    · exact List.mem_append_right _ (List.mem_cons_of_mem _ (ih hpart))

theorem of_mem_listed {separator : Symbol} {trailing : Bool} {parts : List (List Lexeme)}
    {l : Lexeme} (h : l ∈ listed separator trailing parts) :
    l = .symbol separator ∨ ∃ part ∈ parts, l ∈ part := by
  fun_induction listed separator trailing parts with
  | case1 => cases h
  | case2 part =>
    rcases List.mem_append.1 h with hpart | hlast
    · exact .inr ⟨part, List.mem_cons_self, hpart⟩
    · cases trailing with
      | true => exact .inl (List.mem_singleton.1 hlast)
      | false => cases hlast
  | case3 part parts hne ih =>
    rcases List.mem_append.1 h with hpart | hothers
    · exact .inr ⟨part, List.mem_cons_self, hpart⟩
    · rcases List.mem_cons.1 hothers with hl | hothers
      · exact .inl hl
      · refine (ih hothers).imp_right ?_
        rintro ⟨part', hpart', hl⟩
        exact ⟨part', List.mem_cons_of_mem _ hpart', hl⟩

/-- What is found in parts with separators between them is found in the parts, if nothing is in a
separator. -/
theorem filterMap_listed {α : Type} {f : Lexeme → Option α} {separator : Symbol}
    (h : f (.symbol separator) = none) (trailing : Bool) (parts : List (List Lexeme)) :
    (listed separator trailing parts).filterMap f = parts.flatMap (·.filterMap f) := by
  fun_induction listed separator trailing parts with
  | case1 => rfl
  | case2 part => cases trailing <;> simp [h]
  | case3 part parts hne ih => simp [h, ih]

/-- Lexemes as some expressions with a separator between each two, and perhaps another one after the
last. -/
def Lists (means : List Lexeme → Expr → Prop) (separator : Symbol) (ls : List Lexeme)
    (es : List Expr) : Prop :=
  ∃ (parts : List (List Lexeme × Expr)) (trailing : Bool), es = parts.map (·.2) ∧
    (∀ part ∈ parts, means part.1 part.2) ∧ ls = listed separator trailing (parts.map (·.1))

section Lists

variable {means : List Lexeme → Expr → Prop} {separator : Symbol} {ls others : List Lexeme}
  {e : Expr} {es : List Expr}

theorem Lists.nil : Lists means separator [] [] := ⟨[], false, rfl, List.forall_mem_nil _, rfl⟩

theorem Lists.single (h : means ls e) : Lists means separator ls [e] :=
  ⟨[(ls, e)], false, rfl, List.forall_mem_singleton.2 h, (List.append_nil ls).symm⟩

/-- A separator that nothing follows is one after the last expression. -/
theorem Lists.cons (he : means ls e) (h : Lists means separator others es) :
    Lists means separator (ls ++ .symbol separator :: others) (e :: es) := by
  obtain ⟨parts, trailing, rfl, hparts, rfl⟩ := h
  cases parts with
  | nil => exact ⟨[(ls, e)], true, rfl, List.forall_mem_singleton.2 he, rfl⟩
  | cons part parts =>
    exact ⟨(ls, e) :: part :: parts, trailing, rfl, List.forall_mem_cons.2 ⟨he, hparts⟩, rfl⟩

theorem Lists.forall_mem {P : Expr → Prop} (h : Lists means separator ls es)
    (hP : ∀ part e, means part e → (∀ l ∈ part, l ∈ ls) → P e) : ∀ e ∈ es, P e := by
  obtain ⟨parts, trailing, rfl, hparts, rfl⟩ := h
  intro e he
  obtain ⟨part, hpart, rfl⟩ := List.mem_map.1 he
  exact hP _ _ (hparts part hpart) fun l => mem_listed (List.mem_map_of_mem hpart)

end Lists

namespace Expr

/-- Lexemes as an expression. -/
inductive Derives : Nat → Nat → List Lexeme → Expr → Prop where
  | literal {depth level : Nat} {l : Lexeme} {x : Number} (h : l.literal? = some x) :
      Derives (depth + 1) level [l] (.literal x)
  | reference {depth level : Nat} {name : String} :
      Derives (depth + 1) level [.identifier name] (.reference name)
  | block {depth level : Nat} (trailing : Bool) {parts : List (List Lexeme × Expr)}
      (h : ∀ part ∈ parts, Derives depth 0 part.1 part.2) :
      Derives (depth + 1) level
        (.symbol .openBrace :: listed .semicolon trailing (parts.map (·.1)) ++
          [.symbol .closeBrace])
        (.block (parts.map (·.2)))
  | parens {depth level : Nat} {ls : List Lexeme} {e : Expr} (h : Derives depth 0 ls e) :
      Derives (depth + 1) level (.symbol .openParen :: ls ++ [.symbol .closeParen]) e
  | closure {depth level : Nat} (trailing : Bool) {params : List String} {ls : List Lexeme}
      {body : Expr} (h : Derives depth 0 ls body) :
      Derives (depth + 1) level
        (.symbol .openParen :: listed .comma trailing (params.map fun name => [.identifier name]) ++
          .symbol .closeParen :: .symbol .arrow :: ls)
        (.closure params body)
  | ifThen {depth level : Nat} {ls₁ ls₂ : List Lexeme} {test consequent : Expr}
      (htest : Derives depth 0 ls₁ test) (hconsequent : Derives depth 0 ls₂ consequent) :
      Derives (depth + 1) level
        (.keyword .ifWord :: .symbol .openParen :: ls₁ ++ .symbol .closeParen :: ls₂)
        (.ifThen test consequent)
  | ifElse {depth level : Nat} {ls₁ ls₂ ls₃ : List Lexeme} {test consequent alternate : Expr}
      (htest : Derives depth 0 ls₁ test) (hconsequent : Derives depth 0 ls₂ consequent)
      (halternate : Derives depth 0 ls₃ alternate) :
      Derives (depth + 1) level
        (.keyword .ifWord :: .symbol .openParen :: ls₁ ++
          .symbol .closeParen :: ls₂ ++ .keyword .elseWord :: ls₃)
        (.ifElse test consequent alternate)
  | assign {depth level : Nat} (name : String) {ls : List Lexeme} {value : Expr}
      (h : Derives depth 0 ls value) :
      Derives (depth + 1) level
        (.keyword .letWord :: .identifier name :: .symbol .assign :: ls) (.assign name value)
  | random {depth level : Nat} :
      Derives (depth + 1) level [.keyword .rand, .symbol .openParen, .symbol .closeParen] .random
  | builtin {depth level : Nat} {f : Builtin} {ls : List Lexeme} {argument : Expr}
      (h : Derives depth 0 ls argument) :
      Derives (depth + 1) level
        (.keyword f.keyword :: .symbol .openParen :: ls ++ [.symbol .closeParen])
        (.builtin f argument)
  | call {depth level : Nat} (trailing : Bool) {name : String}
      {parts : List (List Lexeme × Expr)} (h : ∀ part ∈ parts, Derives depth 0 part.1 part.2) :
      Derives (depth + 1) level
        (.identifier name :: .symbol .openParen ::
          listed .comma trailing (parts.map (·.1)) ++ [.symbol .closeParen])
        (.call name (parts.map (·.2)))
  | binary {depth level : Nat} {ls rs : List Lexeme} {left right : Expr} {op : Operator}
      (hlevel : level ≤ op.precedence) (hleft : Derives depth op.precedence ls left)
      (hright : Derives depth (op.precedence + 1) rs right) :
      Derives depth level (ls ++ op.lexemes ++ rs) (.binary left op right)

/-- What binds closer stands where less close binding is enough. -/
theorem Derives.weaken {depth level least : Nat} {ls : List Lexeme} {e : Expr}
    (h : Derives depth level ls e) (hle : least ≤ level) : Derives depth least ls e := by
  cases h with
  | literal h => exact .literal h
  | reference => exact .reference
  | block trailing h => exact .block trailing h
  | parens h => exact .parens h
  | closure trailing h => exact .closure trailing h
  | ifThen htest hconsequent => exact .ifThen htest hconsequent
  | ifElse htest hconsequent halternate => exact .ifElse htest hconsequent halternate
  | assign name h => exact .assign name h
  | random => exact .random
  | builtin h => exact .builtin h
  | call trailing h => exact .call trailing h
  | binary hlevel hleft hright => exact .binary (Nat.le_trans hle hlevel) hleft hright

theorem Derives.depth_pos {depth level : Nat} {ls : List Lexeme} {e : Expr}
    (h : Derives depth level ls e) : 0 < depth := by
  induction h with
  | binary hlevel hleft hright ih₁ ih₂ => exact ih₁
  | _ => exact Nat.succ_pos _

end Expr

/-! ## Chains of operators -/

namespace Chain

open Calculator.Expr

/-- Pending operators and the lexemes read with them; the operand to come is at least of a
class. -/
inductive Waiting (depth : Nat) : Pending → List Lexeme → Nat → Prop where
  | nil : Waiting depth [] [] 0
  | cons {pending : Pending} {left : Expr} {op : Operator} {ls ls' : List Lexeme} {level : Nat}
      (h : Waiting depth pending ls level) (hlevel : level ≤ op.precedence)
      (hleft : Derives depth op.precedence ls' left) :
      Waiting depth ((left, op) :: pending) (ls ++ ls' ++ op.lexemes) (op.precedence + 1)

theorem Waiting.eq_nil {depth level : Nat} {pending : Pending} {ls : List Lexeme}
    (h : Waiting depth pending ls level) (hlevel : level = 0) : ls = [] := by
  cases h with
  | nil => rfl
  | cons => cases hlevel

/-- Applying pending operators keeps what has been read. -/
theorem reduce_sound {depth level level' least : Nat} {pending : Pending} {ls rs : List Lexeme}
    {right : Expr} (h : Waiting depth pending ls level) (hright : Derives depth level' rs right)
    (hlevel : level ≤ level') (hleast : least ≤ level') :
    ∃ ls' rs' level'', Waiting depth (reduce least pending right).1 ls' level'' ∧
      level'' ≤ least ∧ Derives depth least rs' (reduce least pending right).2 ∧
      ls' ++ rs' = ls ++ rs := by
  induction h generalizing rs right level' with
  | nil => exact ⟨[], rs, 0, .nil, Nat.zero_le _, hright.weaken hleast, rfl⟩
  | @cons pending left op ls ls' level h hlevel₁ hleft ih =>
    rw [reduce]
    split
    · next hle =>
      have hbinary : Derives depth op.precedence (ls' ++ op.lexemes ++ rs)
          (.binary left op right) := .binary (Nat.le_refl _) hleft (hright.weaken hlevel)
      obtain ⟨ls'', rs', level'', hwait, hlevel'', hderives, heq⟩ := ih hbinary hlevel₁ hle
      refine ⟨ls'', rs', level'', hwait, hlevel'', hderives, ?_⟩
      rw [heq]
      simp only [List.append_assoc]
    · next hle =>
      exact ⟨_, rs, _, .cons h hlevel₁ hleft, by omega, hright.weaken hleast, rfl⟩

/-- The lexemes of a chain after its first operand. -/
def tailLexemes (tail : List ((Operator × Expr) × List Lexeme)) : List Lexeme :=
  tail.flatMap fun item => item.1.1.lexemes ++ item.2

/-- Grouping a chain derives all of it. -/
theorem group_sound {depth level : Nat} {pending : Pending} {ls rs : List Lexeme} {operand : Expr}
    (h : Waiting depth pending ls level) (hoperand : Derives depth 4 rs operand)
    (hlevel : level ≤ 4) {tail : List ((Operator × Expr) × List Lexeme)}
    (htail : ∀ item ∈ tail, Derives depth 4 item.2 item.1.2) :
    Derives depth 0 (ls ++ rs ++ tailLexemes tail) (group pending operand (tail.map (·.1))) := by
  induction tail generalizing pending ls rs operand level with
  | nil =>
    obtain ⟨ls', rs', level', hwait, hlevel', hderives, heq⟩ :=
      reduce_sound h hoperand hlevel (Nat.zero_le _)
    obtain rfl : ls' = [] := hwait.eq_nil (Nat.le_zero.1 hlevel')
    rw [tailLexemes, List.flatMap_nil, List.append_nil, ← heq]
    exact hderives
  | cons item tail ih =>
    obtain ⟨⟨op, next⟩, ns⟩ := item
    obtain ⟨ls', rs', level', hwait, hlevel', hderives, heq⟩ :=
      reduce_sound h hoperand hlevel (show op.precedence ≤ 4 by cases op <;> decide)
    have hnext : Derives depth 4 ns next := htail _ List.mem_cons_self
    have hgroup := ih (.cons hwait hlevel' hderives) hnext (by cases op <;> decide)
      fun item hitem => htail item (List.mem_cons_of_mem _ hitem)
    rw [heq] at hgroup
    rw [List.map_cons, group]
    simpa only [tailLexemes, List.flatMap_cons, List.append_assoc] using hgroup

end Chain

/-! ## Soundness of the parser -/

namespace TokenStream

open Calculator.Expr

/-- The lexemes that are left to read. -/
def lexemes (s : TokenStream) : List Lexeme := s.rest.map (·.lexeme)

/-- What a reader gives is what the lexemes that it takes say. -/
def Sound (read : ExprReader) (means : List Lexeme → Expr → Prop) : Prop :=
  ∀ {s s' : TokenStream} {e : Expr}, read s = .ok (some (e, s')) →
    ∃ ls, s.lexemes = ls ++ s'.lexemes ∧ means ls e

theorem take?_sound {sign : Symbol} {s s' : TokenStream} (h : s.take? sign = some s') :
    s.lexemes = .symbol sign :: s'.lexemes := by
  obtain ⟨previous, rest⟩ := s
  cases rest with
  | nil => cases h
  | cons token rest =>
    simp only [take?] at h
    split at h
    · next hlexeme =>
      cases h
      rw [lexemes, List.map_cons, hlexeme]
      rfl
    · cases h

theorem takeWord?_sound {word : Keyword} {s s' : TokenStream} (h : s.takeWord? word = some s') :
    s.lexemes = .keyword word :: s'.lexemes := by
  obtain ⟨previous, rest⟩ := s
  cases rest with
  | nil => cases h
  | cons token rest =>
    simp only [takeWord?] at h
    split at h
    · next hlexeme =>
      cases h
      rw [lexemes, List.map_cons, hlexeme]
      rfl
    · cases h

theorem demand_sound {sign : Symbol} {s s' : TokenStream} (h : s.demand sign = .ok s') :
    s.lexemes = .symbol sign :: s'.lexemes := by
  rw [demand] at h
  split at h
  · next hs =>
    cases h
    exact take?_sound hs
  · cases h

theorem demandName_sound {s s' : TokenStream} {name : String} (h : s.demandName = .ok (name, s')) :
    s.lexemes = .identifier name :: s'.lexemes := by
  obtain ⟨previous, rest⟩ := s
  cases rest with
  | nil => cases h
  | cons token rest =>
    simp only [demandName] at h
    split at h
    · next hlexeme =>
      cases h
      rw [lexemes, List.map_cons, hlexeme]
      rfl
    · cases h

theorem demandExpr_ok {read : ExprReader} {s s' : TokenStream} {e : Expr} :
    s.demandExpr read = .ok (e, s') ↔ read s = .ok (some (e, s')) := by
  rw [demandExpr, bind_eq_ok]
  constructor
  · rintro ⟨found, hread, h⟩
    cases found with
    | none => cases h
    | some found =>
      cases h
      exact hread
  · exact fun h => ⟨_, h, rfl⟩

section Readers

variable {read : ExprReader} {means : List Lexeme → Expr → Prop} (hread : Sound read means)
include hread

theorem demandExpr_sound {s s' : TokenStream} {e : Expr} (h : s.demandExpr read = .ok (e, s')) :
    ∃ ls, s.lexemes = ls ++ s'.lexemes ∧ means ls e := hread (demandExpr_ok.1 h)

theorem items_sound {separator closer : Symbol} {count : Nat} {s s' : TokenStream}
    {es : List Expr} (h : items read separator closer count s = .ok (es, s')) :
    ∃ ls, s.lexemes = ls ++ s'.lexemes ∧ Lists means separator ls es := by
  induction count generalizing s es with
  | zero =>
    rw [items] at h
    split at h
    · cases h
      exact ⟨[], rfl, .nil⟩
    · cases h
  | succ count ih =>
    rw [items] at h
    split at h
    · cases h
      exact ⟨[], rfl, .nil⟩
    obtain ⟨⟨e, s₁⟩, he, h⟩ := bind_eq_ok.1 h
    obtain ⟨ls, hs, hmeans⟩ := demandExpr_sound hread he
    dsimp only at h
    split at h
    · cases h
      exact ⟨ls, hs, .single hmeans⟩
    · next s₂ htake =>
      obtain ⟨⟨es', s₃⟩, hes, h⟩ := bind_eq_ok.1 h
      cases h
      obtain ⟨others, hs₂, hlists⟩ := ih hes
      refine ⟨_, ?_, .cons hmeans hlists⟩
      rw [hs, take?_sound htake, hs₂, List.append_assoc, List.cons_append]

theorem bracketed_sound {separator closer : Symbol} {s s' : TokenStream} {es : List Expr}
    (h : s.bracketed read separator closer = .ok (es, s')) :
    ∃ ls, s.lexemes = ls ++ .symbol closer :: s'.lexemes ∧ Lists means separator ls es := by
  obtain ⟨⟨es', s₁⟩, hes, h⟩ := bind_eq_ok.1 h
  obtain ⟨s₂, hclose, h⟩ := bind_eq_ok.1 h
  cases h
  obtain ⟨ls, hs, hlists⟩ := items_sound hread hes
  rw [demand_sound hclose] at hs
  exact ⟨ls, hs, hlists⟩

end Readers

theorem names_sound (tokens : List Token) : ∃ trailing, tokens.map (·.lexeme) =
    listed .comma trailing ((names tokens).1.map fun name => [.identifier name]) ++
      (names tokens).2.map (·.lexeme) := by
  fun_induction names tokens with
  | case1 name start stop start' stop' rest others rest' heq ih =>
    obtain ⟨trailing, ih⟩ := ih
    rw [heq] at ih
    dsimp only at ih ⊢
    cases others with
    | nil => exact ⟨true, by simpa [listed] using ih⟩
    | cons other others => exact ⟨trailing, by simpa [listed] using ih⟩
  | case2 name start stop rest hrest => exact ⟨false, rfl⟩
  | case3 rest hrest hrest' => exact ⟨false, rfl⟩

theorem closureHead?_sound {s s' : TokenStream} {params : List String}
    (h : s.closureHead? = some (params, s')) : ∃ trailing, s.lexemes =
      listed .comma trailing (params.map fun name => [.identifier name]) ++
        .symbol .closeParen :: .symbol .arrow :: s'.lexemes := by
  obtain ⟨trailing, hnames⟩ := names_sound s.rest
  rw [closureHead?] at h
  dsimp only at h
  split at h
  · next hrest =>
    cases h
    rw [hrest] at hnames
    exact ⟨trailing, hnames⟩
  · cases h

section Operands

variable {depth : Nat} {read : ExprReader} (hread : Sound read (Derives depth 0))
include hread

theorem block_sound {s s' : TokenStream} {es : List Expr}
    (h : s.bracketed read .semicolon .closeBrace = .ok (es, s')) :
    ∃ ls, s.lexemes = ls ++ s'.lexemes ∧
      Derives (depth + 1) 4 (.symbol .openBrace :: ls) (.block es) := by
  obtain ⟨_, hs, parts, trailing, rfl, hparts, rfl⟩ := bracketed_sound hread h
  exact ⟨_, hs.trans (List.append_cons ..), .block trailing hparts⟩

theorem parenthesis_sound {s s' : TokenStream} {e : Expr} (h : s.parenthesis read = .ok (e, s')) :
    ∃ ls, s.lexemes = ls ++ s'.lexemes ∧ Derives (depth + 1) 4 (.symbol .openParen :: ls) e := by
  rw [parenthesis] at h
  split at h
  · next params s₁ hhead =>
    obtain ⟨⟨body, s₂⟩, hbody, h⟩ := bind_eq_ok.1 h
    cases h
    obtain ⟨trailing, hs⟩ := closureHead?_sound hhead
    obtain ⟨ls, hs₁, hderives⟩ := demandExpr_sound hread hbody
    refine ⟨_, ?_, .closure trailing hderives⟩
    rw [hs, hs₁]
    simp
  · obtain ⟨⟨e', s₁⟩, he, h⟩ := bind_eq_ok.1 h
    obtain ⟨s₂, hclose, h⟩ := bind_eq_ok.1 h
    cases h
    obtain ⟨ls, hs, hderives⟩ := demandExpr_sound hread he
    rw [demand_sound hclose] at hs
    exact ⟨_, hs.trans (List.append_cons ..), .parens hderives⟩

theorem named_sound {name : String} {s s' : TokenStream} {e : Expr}
    (h : s.named read name = .ok (e, s')) : ∃ ls,
      s.lexemes = ls ++ s'.lexemes ∧ Derives (depth + 1) 4 (.identifier name :: ls) e := by
  rw [named] at h
  split at h
  · cases h
    exact ⟨[], rfl, .reference⟩
  · next s₁ hopen =>
    obtain ⟨⟨arguments, s₂⟩, harguments, h⟩ := bind_eq_ok.1 h
    cases h
    obtain ⟨_, hs, parts, trailing, rfl, hparts, rfl⟩ := bracketed_sound hread harguments
    refine ⟨_, ?_, .call trailing hparts⟩
    rw [take?_sound hopen, hs]
    simp

theorem assignment_sound {s s' : TokenStream} {e : Expr} (h : s.assignment read = .ok (e, s')) :
    ∃ ls, s.lexemes = ls ++ s'.lexemes ∧ Derives (depth + 1) 4 (.keyword .letWord :: ls) e := by
  obtain ⟨⟨name, s₁⟩, hname, h⟩ := bind_eq_ok.1 h
  obtain ⟨s₂, hassign, h⟩ := bind_eq_ok.1 h
  obtain ⟨⟨value, s₃⟩, hvalue, h⟩ := bind_eq_ok.1 h
  cases h
  obtain ⟨ls, hs, hderives⟩ := demandExpr_sound hread hvalue
  refine ⟨_, ?_, .assign name hderives⟩
  rw [demandName_sound hname, demand_sound hassign, hs]
  rfl

theorem conditional_sound {s s' : TokenStream} {e : Expr} (h : s.conditional read = .ok (e, s')) :
    ∃ ls, s.lexemes = ls ++ s'.lexemes ∧ Derives (depth + 1) 4 (.keyword .ifWord :: ls) e := by
  obtain ⟨s₁, hopen, h⟩ := bind_eq_ok.1 h
  obtain ⟨⟨test, s₂⟩, htest, h⟩ := bind_eq_ok.1 h
  obtain ⟨s₃, hclose, h⟩ := bind_eq_ok.1 h
  obtain ⟨⟨consequent, s₄⟩, hconsequent, h⟩ := bind_eq_ok.1 h
  obtain ⟨ls₁, hs₁, hderives₁⟩ := demandExpr_sound hread htest
  obtain ⟨ls₂, hs₂, hderives₂⟩ := demandExpr_sound hread hconsequent
  have hs : s.lexemes = .symbol .openParen :: ls₁ ++ .symbol .closeParen :: ls₂ ++ s₄.lexemes := by
    rw [demand_sound hopen, hs₁, demand_sound hclose, hs₂]
    simp
  dsimp only at h
  split at h
  · cases h
    exact ⟨_, hs, .ifThen hderives₁ hderives₂⟩
  · next s₅ helse =>
    obtain ⟨⟨alternate, s₆⟩, halternate, h⟩ := bind_eq_ok.1 h
    cases h
    obtain ⟨ls₃, hs₃, hderives₃⟩ := demandExpr_sound hread halternate
    refine ⟨_, ?_, .ifElse hderives₁ hderives₂ hderives₃⟩
    rw [hs, takeWord?_sound helse, hs₃]
    simp

theorem operand_sound {f : Builtin} {s s' : TokenStream} {e : Expr}
    (h : s.operand read f = .ok (e, s')) :
    ∃ ls, s.lexemes = ls ++ s'.lexemes ∧ Derives (depth + 1) 4 (.keyword f.keyword :: ls) e := by
  obtain ⟨s₁, hopen, h⟩ := bind_eq_ok.1 h
  obtain ⟨⟨argument, s₂⟩, hargument, h⟩ := bind_eq_ok.1 h
  obtain ⟨s₃, hclose, h⟩ := bind_eq_ok.1 h
  cases h
  obtain ⟨ls, hs, hderives⟩ := demandExpr_sound hread hargument
  rw [demand_sound hclose] at hs
  refine ⟨_, ?_, .builtin hderives⟩
  rw [demand_sound hopen, hs]
  simp

omit hread in
theorem random_sound {s s' : TokenStream} {e : Expr} (h : s.random = .ok (e, s')) :
    ∃ ls, s.lexemes = ls ++ s'.lexemes ∧ Derives (depth + 1) 4 (.keyword .rand :: ls) e := by
  obtain ⟨s₁, hopen, h⟩ := bind_eq_ok.1 h
  obtain ⟨s₂, hclose, h⟩ := bind_eq_ok.1 h
  cases h
  refine ⟨_, ?_, .random⟩
  rw [demand_sound hopen, demand_sound hclose]
  rfl

omit hread in
theorem ofKeyword?_keyword {word : Keyword} {f : Builtin} (h : Builtin.ofKeyword? word = some f) :
    f.keyword = word := by
  cases word <;> cases h <;> rfl

/-- An operand is derived, given that what is nested in it is. -/
theorem primary_sound : Sound (primary read) (Derives (depth + 1) 4) := by
  intro s s' e h
  obtain ⟨previous, rest⟩ := s
  cases rest with
  | nil => cases h
  | cons token rest =>
    obtain ⟨lexeme, start, stop⟩ := token
    -- The first token tells the operand, and its reader takes what follows.
    have hfirst (h : ∃ ls, lexemes ⟨some ⟨lexeme, start, stop⟩, rest⟩ = ls ++ s'.lexemes ∧
        Derives (depth + 1) 4 (lexeme :: ls) e) : ∃ ls,
        lexemes ⟨previous, ⟨lexeme, start, stop⟩ :: rest⟩ = ls ++ s'.lexemes ∧
          Derives (depth + 1) 4 ls e := by
      obtain ⟨ls, hls, hderives⟩ := h
      exact ⟨lexeme :: ls, congrArg (lexeme :: ·) hls, hderives⟩
    simp only [primary] at h
    split at h
    · obtain ⟨⟨body, s₁⟩, hbody, h⟩ := bind_eq_ok.1 h
      cases h
      exact hfirst (block_sound hread hbody)
    · obtain ⟨⟨e', s₁⟩, he, h⟩ := map_eq_ok.1 h
      cases h
      exact hfirst (parenthesis_sound hread he)
    · cases h
    · obtain ⟨⟨e', s₁⟩, he, h⟩ := map_eq_ok.1 h
      cases h
      exact hfirst (assignment_sound hread he)
    · obtain ⟨⟨e', s₁⟩, he, h⟩ := map_eq_ok.1 h
      cases h
      exact hfirst (conditional_sound hread he)
    · obtain ⟨⟨e', s₁⟩, he, h⟩ := map_eq_ok.1 h
      cases h
      exact hfirst (random_sound he)
    · split at h
      · next f hf =>
        obtain ⟨⟨e', s₁⟩, he, h⟩ := map_eq_ok.1 h
        cases h
        rw [← ofKeyword?_keyword hf] at hfirst ⊢
        exact hfirst (operand_sound hread he)
      · obtain ⟨x, hx, heq⟩ := Option.map_eq_some_iff.1 (Except.ok.inj h)
        cases heq
        exact hfirst ⟨[], rfl, .literal hx⟩
    · cases h
      exact hfirst ⟨[], rfl, .literal rfl⟩
    · obtain ⟨⟨e', s₁⟩, he, h⟩ := map_eq_ok.1 h
      cases h
      exact hfirst (named_sound hread he)

end Operands

theorem operator?_sound {s s' : TokenStream} {op : Operator}
    (h : s.operator? = .ok (some (op, s'))) : s.lexemes = op.lexemes ++ s'.lexemes := by
  obtain ⟨previous, rest⟩ := s
  cases rest with
  | nil => cases h
  | cons token rest =>
    obtain ⟨lexeme, start, stop⟩ := token
    simp only [operator?] at h
    split at h
    · cases h
      rfl
    · next sign _ =>
      obtain ⟨op', hop, heq⟩ := Option.map_eq_some_iff.1 (Except.ok.inj h)
      cases heq
      cases sign <;> cases hop <;> rfl
    · split at h
      · cases h
      · split at h
        · cases h
          rfl
        · cases h
    · cases h

section Chains

variable {read : ExprReader} {means : List Lexeme → Expr → Prop} (hread : Sound read means)
include hread

theorem chainTail_sound {count : Nat} {s s' : TokenStream} {tail : List (Operator × Expr)}
    (h : chainTail read count s = .ok (tail, s')) :
    ∃ parts : List ((Operator × Expr) × List Lexeme), tail = parts.map (·.1) ∧
      (∀ part ∈ parts, means part.2 part.1.2) ∧
      s.lexemes = Chain.tailLexemes parts ++ s'.lexemes := by
  induction count generalizing s tail with
  | zero =>
    cases h
    exact ⟨[], rfl, nofun, rfl⟩
  | succ count ih =>
    obtain ⟨found, hoperator, h⟩ := bind_eq_ok.1 h
    cases found with
    | none =>
      cases h
      exact ⟨[], rfl, nofun, rfl⟩
    | some found =>
      obtain ⟨op, s₁⟩ := found
      obtain ⟨⟨e, s₂⟩, he, h⟩ := bind_eq_ok.1 h
      obtain ⟨⟨others, s₃⟩, hothers, h⟩ := bind_eq_ok.1 h
      cases h
      obtain ⟨ls, hs, hmeans⟩ := demandExpr_sound hread he
      obtain ⟨parts, rfl, hparts, hrest⟩ := ih hothers
      refine ⟨((op, e), ls) :: parts, rfl, List.forall_mem_cons.2 ⟨hmeans, hparts⟩, ?_⟩
      rw [operator?_sound hoperator, hs, hrest, Chain.tailLexemes, Chain.tailLexemes,
        List.flatMap_cons]
      simp only [List.append_assoc]

theorem statements_sound {count : Nat} {s s' : TokenStream} {es : List Expr}
    (h : statements read count s = .ok (es, s')) :
    ∃ ls, s.lexemes = ls ++ s'.lexemes ∧ Lists means .semicolon ls es := by
  induction count generalizing s es with
  | zero =>
    cases h
    exact ⟨[], rfl, .nil⟩
  | succ count ih =>
    obtain ⟨found, he, h⟩ := bind_eq_ok.1 h
    cases found with
    | none =>
      cases h
      exact ⟨[], rfl, .nil⟩
    | some found =>
      obtain ⟨e, s₁⟩ := found
      obtain ⟨ls, hs, hmeans⟩ := hread he
      dsimp only at h
      split at h
      · cases h
        exact ⟨ls, hs, .single hmeans⟩
      · next s₂ htake =>
        obtain ⟨⟨es', s₃⟩, hes, h⟩ := bind_eq_ok.1 h
        cases h
        obtain ⟨others, hs₂, hlists⟩ := ih hes
        refine ⟨_, ?_, .cons hmeans hlists⟩
        rw [hs, take?_sound htake, hs₂, List.append_assoc, List.cons_append]

end Chains

/-- A chain of operands is derived, given that its operands are. -/
theorem chain_sound {depth : Nat} {read : ExprReader} (hread : Sound read (Derives depth 4)) :
    Sound (chain read) (Derives depth 0) := by
  intro s s' e h
  obtain ⟨found, hhead, h⟩ := bind_eq_ok.1 h
  cases found with
  | none => cases h
  | some found =>
    obtain ⟨head, s₁⟩ := found
    obtain ⟨⟨tail, s₂⟩, htail, h⟩ := bind_eq_ok.1 h
    cases h
    obtain ⟨ls, hs, hderives⟩ := hread hhead
    obtain ⟨parts, rfl, hparts, hrest⟩ := chainTail_sound hread htail
    have hgroup := Chain.group_sound .nil hderives (Nat.zero_le _) hparts
    refine ⟨_, ?_, hgroup⟩
    rw [hs, hrest, List.nil_append, List.append_assoc]

/-- Whatever the parser reads is derived by the grammar. -/
theorem expression_sound (depth : Nat) : Sound (expression depth) (Derives depth 0) := by
  induction depth with
  | zero => exact nofun
  | succ depth ih => exact chain_sound (primary_sound ih)

end TokenStream

namespace Expr

/-- The statements that tokens stand for are derived by the grammar. -/
theorem statementsWithin_sound {depth : Nat} {tokens : List Token} {es : List Expr}
    (h : statementsWithin depth tokens = .ok es) :
    Lists (Derives depth 0) .semicolon (tokens.map (·.lexeme)) es := by
  obtain ⟨⟨es', s⟩, hes, h⟩ := bind_eq_ok.1 h
  dsimp only at h
  split at h
  · next hrest =>
    cases h
    obtain ⟨ls, hs, hlists⟩ :=
      TokenStream.statements_sound (TokenStream.expression_sound depth) hes
    have hnil : s.lexemes = [] := by rw [TokenStream.lexemes, hrest, List.map_nil]
    have htokens : tokens.map (·.lexeme) = ls := by rw [← List.append_nil ls, ← hnil]; exact hs
    rw [htokens]
    exact hlists
  · cases h

end Expr

end Calculator
