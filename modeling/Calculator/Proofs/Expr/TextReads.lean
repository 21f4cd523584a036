import Calculator.Proofs.Expr.Append
import Calculator.Proofs.Expr.Printable

/-
  The text of an expression as lexemes.  `Expr.lexemes` are the lexemes of the text, in all modes the
  same, and the text reads as them (`Printable.reads`): a minus stands where it belongs to its
  numeral, and no two tokens run together.  Their brackets match (`Printable.closed`), so none is
  supplied.
-/

namespace Calculator

namespace Expr

/-- Whether the text of an expression starts with a minus. -/
def startsNegative : Expr → Bool
  | literal x => (Number.plain x).head? == some '-'
  | binary left op _ => !left.needsParens op.precedence && left.startsNegative
  | _ => false

/-- Some lexemes, in parentheses if need be. -/
def inParens (needed : Bool) (ls : List Lexeme) : List Lexeme :=
  if needed then .symbol .openParen :: ls ++ [.symbol .closeParen] else ls

/-- The lexemes of names with commas between them. -/
def nameLexemes : List String → List Lexeme
  | [] => []
  | [name] => [.identifier name]
  | name :: names => .identifier name :: .symbol .comma :: nameLexemes names

mutual
/-- The lexemes of the text of an expression. -/
def lexemes : Expr → List Lexeme
  | literal x => [.number (Number.unsignedZero x)]
  | reference name => [.identifier name]
  | block body => .symbol .openBrace :: separated .semicolon body ++ [.symbol .closeBrace]
  | sequence body => separated .semicolon body
  | closure params body =>
    .symbol .openParen :: nameLexemes params ++
      .symbol .closeParen :: .symbol .arrow :: body.lexemes
  | ifThen test consequent =>
    .keyword .ifWord :: .symbol .openParen :: test.lexemes ++
      .symbol .closeParen :: inParens consequent.startsNegative consequent.lexemes
  | ifElse test consequent alternate =>
    .keyword .ifWord :: .symbol .openParen :: test.lexemes ++
      .symbol .closeParen ::
        inParens (consequent.needsParens 0 || consequent.startsNegative) consequent.lexemes ++
        .keyword .elseWord :: alternate.lexemes
  | assign name value =>
    .keyword .letWord :: .identifier name :: .symbol .assign :: value.lexemes
  | binary left op right =>
    inParens (left.needsParens op.precedence) left.lexemes ++
      .symbol op.symbol :: inParens (right.needsParens (op.precedence + 1)) right.lexemes
  | random => [.keyword .rand, .symbol .openParen, .symbol .closeParen]
  | builtin f argument =>
    .keyword f.keyword :: .symbol .openParen :: argument.lexemes ++ [.symbol .closeParen]
  | call name arguments =>
    .identifier name :: .symbol .openParen :: separated .comma arguments ++ [.symbol .closeParen]
  | missing => []
/-- The lexemes of some expressions with a separator between each two. -/
def separated (separator : Symbol) : List Expr → List Lexeme
  | [] => []
  | e :: es => e.lexemes ++ following separator es
/-- The lexemes of some expressions, each after a separator. -/
def following (separator : Symbol) : List Expr → List Lexeme
  | [] => []
  | e :: es => .symbol separator :: e.lexemes ++ following separator es
end

end Expr

/-! ## Blanks -/

namespace Scan

/-- What keeps the tokens of a text apart. -/
def IsGap (cs : List Char) : Prop := ∀ c ∈ cs, c = ' ' ∨ c = '\n'

theorem Reads.gap {signed : Bool} {gap cs : List Char} {ls : List Lexeme} (hgap : IsGap gap)
    (h : Reads signed cs ls) : Reads signed (gap ++ cs) ls := by
  refine .blanks (fun c hc => ?_) h
  rcases hgap c hc with rfl | rfl <;> decide

theorem Ends.gap {gap cs : List Char} (hgap : IsGap gap) (h : Ends cs) : Ends (gap ++ cs) := by
  cases gap with
  | nil => exact h
  | cons c gap =>
    rcases hgap c List.mem_cons_self with rfl | rfl
    · exact .cons (by decide) (by decide) _
    · exact .cons (by decide) (by decide) _

theorem Reads.symbol {signed : Bool} (s : Symbol) {rest : List Char} {ls : List Lexeme}
    (hsigned : s = .sub → signed = false)
    (h : grows s = true → ∀ c ∈ rest.head?, c ≠ '=' ∧ c ≠ '>')
    (hrest : Reads (!(Lexeme.symbol s).endsOperand) rest ls) :
    Reads signed (s.spelling ++ rest) (.symbol s :: ls) := by
  have hlexeme := lexemeAt?_symbol s hsigned h
  obtain ⟨c, cs, heq, hc⟩ : ∃ c cs, s.spelling = c :: cs ∧ Text.isBlank c = false := by
    cases s <;> exact ⟨_, _, rfl, by decide⟩
  rw [heq] at hlexeme ⊢
  exact .token hc hlexeme hrest

/-- A symbol that is neither a sign nor the start of a longer one reads whatever follows. -/
theorem Reads.plain {signed : Bool} (s : Symbol) {rest : List Char} {ls : List Lexeme}
    (hsub : s ≠ .sub) (hgrows : grows s = false)
    (hrest : Reads (!(Lexeme.symbol s).endsOperand) rest ls) :
    Reads signed (s.spelling ++ rest) (.symbol s :: ls) := by
  refine .symbol s (fun heq => absurd heq hsub) (fun hyes => ?_) hrest
  rw [hgrows] at hyes
  cases hyes

theorem Reads.keyword {signed : Bool} (w : Keyword) {rest : List Char} {ls : List Lexeme}
    (h : ∀ c ∈ rest.head?, isWordChar c = false)
    (hrest : Reads (!(Lexeme.keyword w).endsOperand) rest ls) :
    Reads signed (w.spelling ++ rest) (.keyword w :: ls) := by
  have hlexeme := lexemeAt?_keyword signed w h
  obtain ⟨c, cs, heq, hc⟩ : ∃ c cs, w.spelling = c :: cs ∧ Text.isBlank c = false := by
    cases w <;> exact ⟨_, _, rfl, by decide⟩
  rw [heq] at hlexeme ⊢
  exact .token hc hlexeme hrest

theorem Reads.name {signed : Bool} {name : String} {rest : List Char} {ls : List Lexeme}
    (h : IsName name.toList) (hends : Ends rest) (hrest : Reads false rest ls) :
    Reads signed (name.toList ++ rest) (.identifier name :: ls) := by
  have hlexeme := lexemeAt?_name signed h hends
  rw [String.ofList_toList] at hlexeme
  obtain ⟨c, cs, heq⟩ := List.exists_cons_of_ne_nil h.ne_nil
  have hc := (h.head c (by rw [heq]; rfl)).2.1
  rw [heq] at hlexeme ⊢
  exact .token hc hlexeme hrest

theorem isBlank_of_isDigit {c : Char} (h : c.isDigit = true) : Text.isBlank c = false := by
  have hrange : 0x30 ≤ c.toNat ∧ c.toNat ≤ 0x39 := by
    simpa [Char.isDigit, UInt32.le_iff_toNat_le] using h
  have h₁ : ¬ c.toNat < 0x9 ∧ ¬ c.toNat ≤ 0xd := by omega
  have h₂ : ¬ c.toNat < 0x1c ∧ ¬ c.toNat ≤ 0x20 ∧ c.toNat < 0x85 := by omega
  simp [Text.isBlank, Text.blankRanges, Text.CharRanges.has, h₁, h₂]

theorem Reads.magnitude {signed : Bool} {cs rest : List Char} {ls : List Lexeme}
    (hcs : Numeral.IsMagnitude cs) (hends : Ends rest) (hrest : Reads false rest ls) :
    Reads signed (cs ++ rest) (.number (Numeral.read cs) :: ls) := by
  obtain ⟨c, others, rfl, hc⟩ := magnitude_head hcs
  exact .token (isBlank_of_isDigit hc) (lexemeAt?_magnitude signed hcs hends) hrest

theorem Reads.negative {cs rest : List Char} {ls : List Lexeme} (hcs : Numeral.IsMagnitude cs)
    (hends : Ends rest) (hrest : Reads false rest ls) :
    Reads true ('-' :: cs ++ rest) (.number (Numeral.read ('-' :: cs)) :: ls) :=
  .token (by decide) (lexemeAt?_negative hcs hends) hrest

theorem Reads.number {signed : Bool} {x : Number} {rest : List Char} {ls : List Lexeme}
    (h : x.IsNumber) (hsigned : (Number.plain x).head? = some '-' → signed = true)
    (hends : Ends rest) (hrest : Reads false rest ls) :
    Reads signed (Number.plain x ++ rest) (.number (Number.unsignedZero x) :: ls) := by
  obtain ⟨negative, cs, hplain, hcs, hread⟩ := Number.plain_sound h
  rw [hplain] at hsigned ⊢
  rw [← hread]
  cases negative with
  | false => exact .magnitude hcs hends hrest
  | true =>
    obtain rfl : signed = true := hsigned rfl
    exact .negative hcs hends hrest

end Scan

namespace Mode

open Scan

theorem margin_isGap (indent : Nat) : IsGap (margin indent) :=
  fun _ hc => .inl (List.eq_of_mem_replicate hc)

theorem space_isGap (mode : Mode) : IsGap mode.space := by
  cases mode <;> simp [space, IsGap]

theorem opening_isGap (mode : Mode) (indent : Nat) : IsGap (mode.opening indent) := by
  cases mode with
  | minified => exact space_isGap .minified
  | spaced => exact space_isGap .spaced
  | indented => exact List.forall_mem_cons.2 ⟨.inr rfl, margin_isGap indent⟩

theorem closing_isGap (mode : Mode) (indent : Nat) : IsGap (mode.closing indent) :=
  opening_isGap mode indent

theorem separator_eq (mode : Mode) (indent : Nat) :
    mode.separator indent = Symbol.semicolon.spelling ++ mode.opening indent := by
  cases mode <;> rfl

theorem comma_eq (mode : Mode) : mode.comma = Symbol.comma.spelling ++ mode.space := rfl

end Mode

/-! ## Text as lexemes -/

namespace Expr

open Scan

theorem inParens_append (needed : Bool) (ls others : List Lexeme) :
    inParens needed ls ++ others =
      if needed then .symbol .openParen :: ls ++ .symbol .closeParen :: others
      else ls ++ others := by
  cases needed <;> simp [inParens]

/-- How the text of an expression starts. -/
theorem Printable.head {e : Expr} (h : e.Printable) (mode : Mode) (indent : Nat)
    (after : List Char) : ∃ c cs, e.formatOnto mode indent after = c :: cs ∧
      c ≠ '=' ∧ c ≠ '>' ∧ (c = '-' ↔ e.startsNegative = true) := by
  have hname {name : String} (h : IsName name.toList) (after : List Char) (e : Expr)
      (he : e.startsNegative = false) : ∃ c cs, name.toList ++ after = c :: cs ∧
      c ≠ '=' ∧ c ≠ '>' ∧ (c = '-' ↔ e.startsNegative = true) := by
    obtain ⟨c, cs, heq⟩ := List.exists_cons_of_ne_nil h.ne_nil
    have hc : Text.isNameChar c = true := h.chars c (by rw [heq]; exact List.mem_cons_self)
    have hminus : c ≠ '-' := ne_of_isNameChar hc (by decide)
    refine ⟨c, cs ++ after, by rw [heq]; rfl, ne_of_isNameChar hc (by decide),
      ne_of_isNameChar hc (by decide), ?_⟩
    simp [hminus, he]
  induction h generalizing indent after with
  | @literal x h =>
    obtain ⟨negative, cs, hplain, hcs, -⟩ := Number.plain_sound h
    obtain ⟨c, others, rfl, hc⟩ := magnitude_head hcs
    have hne {d : Char} (hd : d.isDigit = false) : c ≠ d := by
      rintro rfl
      simp [hc] at hd
    rw [formatOnto, startsNegative, hplain]
    cases negative with
    | false =>
      refine ⟨c, others ++ after, rfl, hne (by decide), hne (by decide), ?_⟩
      simp [Number.signed]
    | true => exact ⟨'-', c :: others ++ after, rfl, by decide, by decide, by simp [Number.signed]⟩
  | reference h => exact hname h _ _ rfl
  | @block body h ih =>
    cases body <;> exact ⟨'{', _, rfl, by decide, by decide, by simp [startsNegative]⟩
  | closure hparams h ih => exact ⟨'(', _, rfl, by decide, by decide, by simp [startsNegative]⟩
  | ifThen htest hconsequent ih₁ ih₂ =>
    exact ⟨'i', _, rfl, by decide, by decide, by simp [startsNegative]⟩
  | ifElse htest hconsequent halternate ih₁ ih₂ ih₃ =>
    exact ⟨'i', _, rfl, by decide, by decide, by simp [startsNegative]⟩
  | assign hname h ih => exact ⟨'l', _, rfl, by decide, by decide, by simp [startsNegative]⟩
  | @binary left op right hleft hright ih₁ ih₂ =>
    rw [formatOnto, startsNegative]
    cases hparens : left.needsParens op.precedence with
    | true => exact ⟨'(', _, rfl, by decide, by decide, by simp⟩
    | false =>
      obtain ⟨c, cs, heq, hc⟩ := ih₁ indent (mode.space ++ op.spelling ++ mode.space ++
        parenthesized (right.needsParens (op.precedence + 1)) (right.formatOnto mode indent) after)
      exact ⟨c, cs, heq, by simpa using hc⟩
  | random => exact ⟨'r', _, rfl, by decide, by decide, by simp [startsNegative]⟩
  | @builtin f argument h ih =>
    cases f <;> exact ⟨_, _, rfl, by decide, by decide, by simp [startsNegative]⟩
  | @call name arguments h hall ih =>
    cases arguments <;> exact hname h _ _ rfl

/-- A consequent is guarded by parentheses when its text starts with a minus. -/
theorem Printable.guarded_append {e : Expr} (h : e.Printable) (mode : Mode) (indent : Nat)
    (needed : Bool) (after : List Char) :
    guarded (parenthesized needed (e.formatOnto mode indent) []) ++ after =
      parenthesized (needed || e.startsNegative) (e.formatOnto mode indent) after := by
  have happend (rest : List Char) : e.formatOnto mode indent rest =
      e.formatOnto mode indent [] ++ rest := formatOnto_append mode e indent [] rest
  cases needed with
  | true =>
    have hhead : ¬ (parenthesized true (e.formatOnto mode indent) []).head? = some '-' := by
      simp [parenthesized]
    rw [guarded, if_neg hhead, ← parenthesized_append true fun rest =>
      formatOnto_append mode e indent rest after, Bool.true_or, List.nil_append]
  | false =>
    obtain ⟨c, cs, heq, -, -, hminus⟩ := h.head mode indent []
    have hhead : (e.formatOnto mode indent []).head? = some '-' ↔ e.startsNegative = true := by
      rw [heq, List.head?_cons, Option.some_inj, hminus]
    rw [Bool.false_or, parenthesized, if_neg Bool.false_ne_true, guarded]
    cases hneg : e.startsNegative with
    | true =>
      rw [if_pos (hhead.2 hneg), parenthesized, if_pos rfl, happend (')' :: after)]
      simp
    | false =>
      rw [if_neg (by rw [hhead, hneg]; decide), parenthesized, if_neg Bool.false_ne_true,
        ← happend]

/-! ### Reading one part after another -/

section Parts

variable {signed : Bool} {rest : List Char} {ls : List Lexeme}

theorem reads_openParen (h : Reads true rest ls) :
    Reads signed ('(' :: rest) (.symbol .openParen :: ls) :=
  Reads.plain .openParen (by decide) rfl h

theorem reads_closeParen (h : Reads false rest ls) :
    Reads signed (')' :: rest) (.symbol .closeParen :: ls) :=
  Reads.plain .closeParen (by decide) rfl h

theorem ends_closeParen : Ends (')' :: rest) := .cons (by decide) (by decide) _

theorem ends_openParen : Ends ('(' :: rest) := .cons (by decide) (by decide) _

/-- An operator makes its token before the gap and the operand after it. -/
theorem reads_operator (op : Operator) {gap : List Char} (hgap : IsGap gap)
    (hrest : ∀ c ∈ rest.head?, c ≠ '=' ∧ c ≠ '>') (h : Reads true rest ls) :
    Reads false (op.spelling ++ (gap ++ rest)) (.symbol op.symbol :: ls) := by
  refine Reads.symbol op.symbol (fun _ => rfl) (fun _ => ?_) ?_
  · cases gap with
    | nil => exact hrest
    | cons c gap =>
      rintro _ ⟨⟩
      rcases hgap c List.mem_cons_self with rfl | rfl <;> decide
  · have hends : (Lexeme.symbol op.symbol).endsOperand = false := by cases op <;> rfl
    rw [hends]
    exact h.gap hgap

theorem ends_operator (op : Operator) : Ends (op.spelling ++ rest) := by
  cases op <;> exact .cons (by decide) (by decide) _

/-- Names with commas between them. -/
theorem reads_names (mode : Mode) {names : List String} (hnames : ∀ n ∈ names, IsName n.toList)
    (hends : Ends rest) (h : ∀ signed, Reads signed rest ls) :
    Reads signed (List.intercalate mode.comma (names.map String.toList) ++ rest)
      (nameLexemes names ++ ls) := by
  induction names generalizing signed with
  | nil => exact h signed
  | cons n names ih =>
    have hn : IsName n.toList := hnames n List.mem_cons_self
    have hothers : ∀ n ∈ names, IsName n.toList := fun n h => hnames n (List.mem_cons_of_mem _ h)
    cases names with
    | nil =>
      simp only [List.map_cons, List.map_nil, List.intercalate_singleton]
      exact Reads.name hn hends (h false)
    | cons n' names =>
      rw [List.map_cons, List.map_cons, List.intercalate_cons_cons, ← List.map_cons, mode.comma_eq]
      simp only [nameLexemes, List.append_assoc, List.cons_append]
      refine Reads.name hn (.cons (by decide) (by decide) _) ?_
      refine Reads.plain .comma (by decide) rfl ?_
      exact (ih hothers).gap mode.space_isGap

end Parts

/-- The text of an expression reads as its lexemes, whatever reads as more of them after it. -/
def ReadsAs (mode : Mode) (e : Expr) : Prop :=
  ∀ (indent : Nat) (signed : Bool) {after : List Char} {ls : List Lexeme},
    (e.startsNegative = true → signed = true) → Ends after → Reads false after ls →
      Reads signed (e.formatOnto mode indent after) (e.lexemes ++ ls)

section Assembly

variable {mode : Mode} {e : Expr} {es : List Expr} {after : List Char} {ls : List Lexeme}

theorem ReadsAs.operand (h : e.ReadsAs mode) (needed : Bool) {signed : Bool} (indent : Nat)
    (hsigned : needed = false → e.startsNegative = true → signed = true) (hends : Ends after)
    (hafter : Reads false after ls) :
    Reads signed (parenthesized needed (e.formatOnto mode indent) after)
      (inParens needed e.lexemes ++ ls) := by
  cases needed with
  | true =>
    rw [inParens_append, if_pos rfl]
    exact reads_openParen (h indent _ (fun _ => rfl) ends_closeParen (reads_closeParen hafter))
  | false => exact h indent _ (hsigned rfl) hends hafter

/-- What a condition starts with, up to its consequent. -/
theorem ReadsAs.condition (h : e.ReadsAs mode) {signed : Bool} (indent : Nat) {rest : List Char}
    (hrest : Reads false rest ls) :
    Reads signed (Keyword.ifWord.spelling ++ (mode.space ++
        '(' :: e.formatOnto mode indent (')' :: (mode.space ++ rest))))
      (.keyword .ifWord :: .symbol .openParen :: (e.lexemes ++ .symbol .closeParen :: ls)) := by
  refine Reads.keyword .ifWord ?_ (.gap mode.space_isGap (reads_openParen ?_))
  · cases mode <;> rintro _ ⟨⟩ <;> decide
  · refine h indent _ (fun _ => rfl) ends_closeParen ?_
    exact reads_closeParen (.gap mode.space_isGap hrest)

theorem readsAs_following (h : ∀ e ∈ es, e.ReadsAs mode) {s : Symbol}
    (hs : s = .comma ∨ s = .semicolon) {gap : List Char} (hgap : IsGap gap) (indent : Nat)
    (hends : Ends after) (hafter : Reads false after ls) :
    Ends (formatAllOnto mode indent (s.spelling ++ gap) es after) ∧
      Reads false (formatAllOnto mode indent (s.spelling ++ gap) es after)
        (following s es ++ ls) := by
  induction es with
  | nil => exact ⟨hends, hafter⟩
  | cons e es ih =>
    obtain ⟨hends', hreads⟩ := ih fun e he => h e (List.mem_cons_of_mem _ he)
    have hfirst := ((h e List.mem_cons_self) indent true (fun _ => rfl) hends'
      hreads).gap hgap
    rw [formatAllOnto, following, List.append_assoc]
    simp only [List.cons_append, List.append_assoc]
    constructor
    · rcases hs with rfl | rfl <;> exact .cons (by decide) (by decide) _
    · rcases hs with rfl | rfl <;> exact .plain _ (by decide) rfl hfirst

/-- Some expressions with a separator between each two. -/
theorem readsAs_separated (he : e.ReadsAs mode) (h : ∀ e ∈ es, e.ReadsAs mode) {s : Symbol}
    (hs : s = .comma ∨ s = .semicolon) {gap : List Char} (hgap : IsGap gap) (indent : Nat)
    (hends : Ends after) (hafter : Reads false after ls) :
    Reads true (e.formatOnto mode indent (formatAllOnto mode indent (s.spelling ++ gap) es after))
      (separated s (e :: es) ++ ls) := by
  obtain ⟨hends', hreads⟩ := readsAs_following h hs hgap indent hends hafter
  rw [separated, List.append_assoc]
  exact he indent _ (fun _ => rfl) hends' hreads

end Assembly

/-- The text of an expression reads as its lexemes, in every mode. -/
theorem Printable.reads {e : Expr} (h : e.Printable) (mode : Mode) : e.ReadsAs mode := by
  induction h with
  | literal h =>
    intro indent signed after ls hsigned hends hafter
    refine Reads.number h (fun hhead => hsigned ?_) hends hafter
    rw [startsNegative, hhead]
    rfl
  | reference h =>
    intro indent signed after ls hsigned hends hafter
    exact Reads.name h hends hafter
  | @block body h ih =>
    intro indent signed after ls hsigned hends hafter
    have hclose (signed : Bool) : Reads signed ('}' :: after) (.symbol .closeBrace :: ls) :=
      Reads.plain .closeBrace (by decide) rfl hafter
    simp only [lexemes, List.cons_append, List.append_assoc]
    cases body with
    | nil => exact Reads.plain .openBrace (by decide) rfl (hclose true)
    | cons e es =>
      rw [formatOnto, mode.separator_eq]
      refine Reads.plain .openBrace (by decide) rfl (.gap (mode.opening_isGap _) ?_)
      exact readsAs_separated (ih e List.mem_cons_self)
        (fun e he => ih e (List.mem_cons_of_mem _ he)) (.inr rfl) (mode.opening_isGap _) _
        (.gap (mode.closing_isGap indent) (.cons (by decide) (by decide) _))
        (.gap (mode.closing_isGap indent) (hclose false))
  | closure hparams h ih =>
    intro indent signed after ls hsigned hends hafter
    simp only [lexemes, formatOnto, List.cons_append, List.append_assoc]
    refine reads_openParen (reads_names mode hparams ends_closeParen fun signed => ?_)
    refine reads_closeParen (.gap mode.space_isGap ?_)
    refine Reads.plain .arrow (by decide) rfl (.gap mode.space_isGap ?_)
    exact ih indent _ (fun _ => rfl) hends hafter
  | @ifThen test consequent htest hconsequent ih₁ ih₂ =>
    intro indent signed after ls hsigned hends hafter
    have hguard := hconsequent.guarded_append mode indent false after
    rw [parenthesized, if_neg Bool.false_ne_true, Bool.false_or] at hguard
    simp only [lexemes, formatOnto, List.cons_append, List.append_assoc, hguard]
    refine ih₁.condition indent ?_
    refine ih₂.operand _ indent (fun hno hyes => ?_) hends hafter
    rw [hno] at hyes
    cases hyes
  | @ifElse test consequent alternate htest hconsequent halternate ih₁ ih₂ ih₃ =>
    intro indent signed after ls hsigned hends hafter
    have helse : Reads false (' ' :: (Keyword.elseWord.spelling ++
        ' ' :: alternate.formatOnto mode indent after))
        (.keyword .elseWord :: (alternate.lexemes ++ ls)) := by
      refine .blank (by decide) (Reads.keyword .elseWord ?_ (.blank (by decide) ?_))
      · rintro _ ⟨⟩
        decide
      · exact ih₃ indent _ (fun _ => rfl) hends hafter
    have hguard := hconsequent.guarded_append mode indent (consequent.needsParens 0)
      (' ' :: (Keyword.elseWord.spelling ++ ' ' :: alternate.formatOnto mode indent after))
    simp only [lexemes, formatOnto, List.cons_append, List.append_assoc, hguard]
    refine ih₁.condition indent ?_
    refine ih₂.operand _ indent (fun hno hyes => ?_) (.cons (by decide) (by decide) _) helse
    rw [hyes, Bool.or_true] at hno
    cases hno
  | @assign name value hname h ih =>
    intro indent signed after ls hsigned hends hafter
    obtain ⟨c, cs, heq, hequal, hgreater, -⟩ := h.head mode indent after
    simp only [lexemes, formatOnto, List.cons_append, List.append_assoc]
    refine Reads.keyword .letWord ?_ (.blank (by decide) ?_)
    · rintro _ ⟨⟩
      decide
    have hassign : Ends ('=' :: (mode.space ++ value.formatOnto mode indent after)) :=
      .cons (by decide) (by decide) _
    refine Reads.name hname (.gap mode.space_isGap hassign) (.gap mode.space_isGap ?_)
    refine Reads.symbol .assign (by simp) (fun _ => ?_) (.gap mode.space_isGap ?_)
    · rw [heq]
      cases mode <;> rintro _ ⟨⟩
      · exact ⟨hequal, hgreater⟩
      · decide
      · decide
    · exact ih indent _ (fun _ => rfl) hends hafter
  | @binary left op right hleft hright ih₁ ih₂ =>
    intro indent signed after ls hsigned hends hafter
    simp only [lexemes, formatOnto, List.cons_append, List.append_assoc]
    refine ih₁.operand _ indent (fun hno hneg => hsigned ?_)
      (.gap mode.space_isGap (ends_operator op)) (.gap mode.space_isGap ?_)
    · rw [startsNegative, hno, hneg]
      rfl
    refine reads_operator op mode.space_isGap ?_ ?_
    · obtain ⟨c, cs, heq, hequal, hgreater, -⟩ := hright.head mode indent after
      rw [parenthesized]
      split
      · rintro _ ⟨⟩
        decide
      · rw [heq]
        rintro _ ⟨⟩
        exact ⟨hequal, hgreater⟩
    · exact ih₂.operand _ indent (fun _ _ => rfl) hends hafter
  | random =>
    intro indent signed after ls hsigned hends hafter
    refine Reads.keyword .rand ?_ (reads_openParen (reads_closeParen hafter))
    rintro _ ⟨⟩
    decide
  | @builtin f argument h ih =>
    intro indent signed after ls hsigned hends hafter
    have hword : (Lexeme.keyword f.keyword).endsOperand = false := by cases f <;> rfl
    simp only [lexemes, formatOnto, List.cons_append, List.append_assoc]
    refine Reads.keyword f.keyword ?_ ?_
    · rintro _ ⟨⟩
      decide
    rw [hword]
    exact reads_openParen (ih indent _ (fun _ => rfl) ends_closeParen (reads_closeParen hafter))
  | @call name arguments hname h ih =>
    intro indent signed after ls hsigned hends hafter
    simp only [lexemes, List.cons_append, List.append_assoc]
    cases arguments with
    | nil =>
      exact Reads.name hname ends_openParen (reads_openParen (reads_closeParen hafter))
    | cons e es =>
      rw [formatOnto, mode.comma_eq]
      refine Reads.name hname ends_openParen (reads_openParen ?_)
      exact readsAs_separated (ih e List.mem_cons_self)
        (fun e he => ih e (List.mem_cons_of_mem _ he)) (.inl rfl) mode.space_isGap _
        ends_closeParen (reads_closeParen hafter)

/-! ## Brackets -/

/-- Closing brackets, as they can be due. -/
def IsDue (closers : List Symbol) : Prop := ∀ s ∈ closers, s = .closeParen ∨ s = .closeBrace

/-- Lexemes whose brackets match leave the brackets that are due as they are. -/
def Closed (ls : List Lexeme) : Prop := ∀ closers, IsDue closers → ls.foldl due closers = closers

namespace Closed

theorem nil : Closed [] := fun _ _ => rfl

theorem append {ls others : List Lexeme} (h : Closed ls) (hothers : Closed others) :
    Closed (ls ++ others) := fun closers hdue => by
  rw [List.foldl_append, h closers hdue, hothers closers hdue]

theorem word {ls : List Lexeme} (w : Keyword) (h : Closed ls) : Closed (.keyword w :: ls) := h

theorem identifier {ls : List Lexeme} (name : String) (h : Closed ls) :
    Closed (.identifier name :: ls) := h

/-- A symbol that is no bracket. -/
theorem symbol {s : Symbol} {ls : List Lexeme} (hopen : s.closer? = none)
    (hclose : s ≠ .closeParen ∧ s ≠ .closeBrace) (h : Closed ls) : Closed (.symbol s :: ls) := by
  intro closers hdue
  have hhead : closers.head? ≠ some s := by
    intro hs
    rcases hdue s (List.mem_of_mem_head? hs) with rfl | rfl
    · exact hclose.1 rfl
    · exact hclose.2 rfl
  rw [List.foldl_cons]
  simpa [due, hopen, hhead] using h closers hdue

theorem operator (op : Operator) {ls : List Lexeme} (h : Closed ls) :
    Closed (.symbol op.symbol :: ls) := by
  cases op <;> exact symbol rfl (by decide) h

/-- Lexemes between brackets, and others after them. -/
theorem bracketed {opener closer : Symbol} {ls others : List Lexeme}
    (hopener : opener.closer? = some closer) (hcloser : closer.closer? = none)
    (hbracket : closer = .closeParen ∨ closer = .closeBrace) (h : Closed ls)
    (hothers : Closed others) : Closed (.symbol opener :: ls ++ .symbol closer :: others) := by
  intro closers hdue
  have hopen : due closers (.symbol opener) = closer :: closers := by simp [due, hopener]
  have hclose : due (closer :: closers) (.symbol closer) = closers := by simp [due, hcloser]
  rw [List.cons_append, List.foldl_cons, List.foldl_append, hopen,
    h _ (List.forall_mem_cons.2 ⟨hbracket, hdue⟩), List.foldl_cons, hclose, hothers closers hdue]

theorem parens {ls others : List Lexeme} (h : Closed ls) (hothers : Closed others) :
    Closed (.symbol .openParen :: ls ++ .symbol .closeParen :: others) :=
  bracketed rfl rfl (.inl rfl) h hothers

theorem inParens {ls : List Lexeme} (needed : Bool) (h : Closed ls) :
    Closed (inParens needed ls) := by
  cases needed with
  | true => exact parens h nil
  | false => exact h

theorem nameLexemes (names : List String) : Closed (nameLexemes names) := by
  induction names with
  | nil => exact nil
  | cons n names ih =>
    cases names with
    | nil => exact nil
    | cons n' names => exact identifier n (symbol rfl (by decide) ih)

theorem following {es : List Expr} {s : Symbol} (hs : s = .comma ∨ s = .semicolon)
    (h : ∀ e ∈ es, Closed e.lexemes) : Closed (following s es) := by
  induction es with
  | nil => exact nil
  | cons e es ih =>
    have hrest := append (h e List.mem_cons_self) (ih fun e he => h e (List.mem_cons_of_mem _ he))
    rcases hs with rfl | rfl <;> exact symbol rfl (by decide) hrest

theorem separated {es : List Expr} {s : Symbol} (hs : s = .comma ∨ s = .semicolon)
    (h : ∀ e ∈ es, Closed e.lexemes) : Closed (separated s es) := by
  cases es with
  | nil => exact nil
  | cons e es =>
    exact append (h e List.mem_cons_self) (following hs fun e he => h e (List.mem_cons_of_mem _ he))

end Closed

/-- The brackets in the text of an expression match. -/
theorem Printable.closed {e : Expr} (h : e.Printable) : Closed e.lexemes := by
  induction h with
  | literal h => exact .nil
  | reference h => exact .nil
  | block h ih => exact .bracketed rfl rfl (.inr rfl) (.separated (.inr rfl) ih) .nil
  | @closure params body hparams h ih =>
    exact .parens (.nameLexemes params) (.symbol rfl (by decide) ih)
  | ifThen htest hconsequent ih₁ ih₂ => exact .word .ifWord (.parens ih₁ (.inParens _ ih₂))
  | ifElse htest hconsequent halternate ih₁ ih₂ ih₃ =>
    rw [lexemes, List.append_assoc]
    exact .word .ifWord (.parens ih₁ (.append (.inParens _ ih₂) (.word .elseWord ih₃)))
  | assign hname h ih => exact .word .letWord (.identifier _ (.symbol rfl (by decide) ih))
  | binary hleft hright ih₁ ih₂ =>
    exact .append (.inParens _ ih₁) (.operator _ (.inParens _ ih₂))
  | random => exact .word .rand (.parens .nil .nil)
  | builtin h ih => exact .word _ (.parens ih .nil)
  | call hname h ih => exact .identifier _ (.parens (.separated (.inl rfl) ih) .nil)

/-! ## Whole programs -/

/-- The text of a program reads as its lexemes, in every mode, and leaves no bracket open. -/
theorem PrintableProgram.reads {e : Expr} (h : e.PrintableProgram) (mode : Mode) :
    Reads true (e.format mode 0) e.lexemes ∧ closers e.lexemes = [] := by
  have hdone : Reads false [] [] := .done rfl
  cases h with
  | single h =>
    have hreads := h.reads mode 0 true (fun _ => rfl) Ends.nil hdone
    rw [List.append_nil] at hreads
    exact ⟨hreads, h.closed [] (List.forall_mem_nil _)⟩
  | @sequence body h hlength =>
    cases body with
    | nil => exact absurd hlength (by decide)
    | cons e es =>
      have hclosed : Closed (separated .semicolon (e :: es)) :=
        .separated (.inr rfl) fun e he => (h e he).closed
      have hreads := readsAs_separated ((h e List.mem_cons_self).reads mode)
        (fun e he => (h e (List.mem_cons_of_mem _ he)).reads mode) (.inr rfl)
        (mode.opening_isGap 0) 0 Ends.nil hdone
      rw [← mode.separator_eq, List.append_nil] at hreads
      exact ⟨hreads, hclosed [] (List.forall_mem_nil _)⟩

/-- The text of a program, in whatever mode, has the tokens of its lexemes. -/
theorem PrintableProgram.tokenize {e : Expr} (h : e.PrintableProgram) (mode : Mode) :
    ∃ tokens, Calculator.tokenize (.ofString (String.ofList (e.format mode 0))) = .ok tokens ∧
      tokens.map (·.lexeme) = e.lexemes := by
  obtain ⟨hreads, hclosed⟩ := h.reads mode
  refine tokenize_of_reads ?_ hclosed
  rw [String.toList_ofList]
  exact hreads

end Expr

end Calculator
