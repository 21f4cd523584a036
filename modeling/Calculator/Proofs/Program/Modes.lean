import Calculator.Proofs.Program.RoundTrip

/-
  The modes of layout.  A mode puts blanks into a text and nothing else: without its blanks the text
  of an expression is the same in every mode (`Printable.sameSolid`).  Blanks may keep tokens apart,
  so that alone does not make the tokens the same; but in every mode they are the lexemes of the
  program, and no bracket has to be supplied (`formatSource_modes`).
-/

namespace Calculator

/-- A text without its blanks. -/
def solid (cs : List Char) : List Char := cs.filter fun c => !Text.isBlank c

/-- Two texts are the same but for blanks. -/
def SameSolid (cs cs' : List Char) : Prop := solid cs = solid cs'

theorem solid_append (cs cs' : List Char) : solid (cs ++ cs') = solid cs ++ solid cs' :=
  List.filter_append ..

theorem solid_gap {gap : List Char} (h : Scan.IsGap gap) : solid gap = [] := by
  refine List.filter_eq_nil_iff.2 fun c hc => ?_
  rcases h c hc with rfl | rfl <;> decide

namespace SameSolid

variable {cs cs' : List Char}

theorem part (part : List Char) (h : SameSolid cs cs') : SameSolid (part ++ cs) (part ++ cs') := by
  unfold SameSolid at h ⊢
  rw [solid_append, solid_append, h]

theorem cons (c : Char) (h : SameSolid cs cs') : SameSolid (c :: cs) (c :: cs') := h.part [c]

theorem gap {gap gap' : List Char} (hgap : Scan.IsGap gap) (hgap' : Scan.IsGap gap')
    (h : SameSolid cs cs') : SameSolid (gap ++ cs) (gap' ++ cs') := by
  unfold SameSolid at h ⊢
  rw [solid_append, solid_append, solid_gap hgap, solid_gap hgap', h]

end SameSolid

namespace Expr

variable {mode mode' : Mode} {after after' : List Char} {e : Expr}

/-- The text of an expression in a mode is that in another one but for blanks, and so is what
follows it if it was before. -/
def LaidOutAlike (mode mode' : Mode) (e : Expr) : Prop :=
  ∀ (indent indent' : Nat) {after after' : List Char}, SameSolid after after' →
    SameSolid (e.formatOnto mode indent after) (e.formatOnto mode' indent' after')

theorem sameSolid_names (mode mode' : Mode) (names : List String) (h : SameSolid after after') :
    SameSolid (List.intercalate mode.comma (names.map String.toList) ++ after)
      (List.intercalate mode'.comma (names.map String.toList) ++ after') := by
  induction names with
  | nil => exact h
  | cons n names ih =>
    cases names with
    | nil =>
      simp only [List.map_cons, List.map_nil, List.intercalate_singleton]
      exact h.part n.toList
    | cons n' names =>
      rw [List.map_cons, List.map_cons, List.intercalate_cons_cons, List.intercalate_cons_cons,
        ← List.map_cons]
      simp only [Mode.comma, List.append_assoc, List.cons_append]
      exact .part n.toList (.cons ',' (.gap mode.space_isGap mode'.space_isGap ih))

theorem sameSolid_following {es : List Expr} (h : ∀ e ∈ es, e.LaidOutAlike mode mode')
    (sign : Char) {gap gap' : List Char} (hgap : Scan.IsGap gap) (hgap' : Scan.IsGap gap')
    (indent indent' : Nat) (hafter : SameSolid after after') :
    SameSolid (formatAllOnto mode indent (sign :: gap) es after)
      (formatAllOnto mode' indent' (sign :: gap') es after') := by
  induction es with
  | nil => exact hafter
  | cons e es ih =>
    have hothers := ih fun e he => h e (List.mem_cons_of_mem _ he)
    exact .cons sign (.gap hgap hgap' (h e List.mem_cons_self indent indent' hothers))

theorem sameSolid_parenthesized (h : e.LaidOutAlike mode mode') (needed : Bool)
    (indent indent' : Nat) (hafter : SameSolid after after') :
    SameSolid (parenthesized needed (e.formatOnto mode indent) after)
      (parenthesized needed (e.formatOnto mode' indent') after') := by
  cases needed with
  | false => exact h indent indent' hafter
  | true => exact .cons '(' (h indent indent' (.cons ')' hafter))

theorem sameSolid_guarded (hprintable : e.Printable) (h : e.LaidOutAlike mode mode')
    (needed : Bool) (indent indent' : Nat) (hafter : SameSolid after after') :
    SameSolid (guarded (parenthesized needed (e.formatOnto mode indent) []) ++ after)
      (guarded (parenthesized needed (e.formatOnto mode' indent') []) ++ after') := by
  rw [hprintable.guarded_append, hprintable.guarded_append]
  exact sameSolid_parenthesized h _ indent indent' hafter

/-- The texts of an expression in two modes are the same but for blanks. -/
theorem Printable.sameSolid (h : e.Printable) (mode mode' : Mode) : e.LaidOutAlike mode mode' := by
  have hspace := mode.space_isGap
  have hspace' := mode'.space_isGap
  induction h with
  | @literal x h =>
    intro indent indent' after after' hafter
    exact hafter.part (Number.plain x)
  | @reference name h =>
    intro indent indent' after after' hafter
    exact hafter.part name.toList
  | @block body h ih =>
    intro indent indent' after after' hafter
    cases body with
    | nil => exact hafter.part ['{', '}']
    | cons e es =>
      have hclose : SameSolid (mode.closing indent ++ '}' :: after)
          (mode'.closing indent' ++ '}' :: after') :=
        .gap (mode.closing_isGap indent) (mode'.closing_isGap indent') (hafter.cons '}')
      have hothers := sameSolid_following (fun e he => ih e (List.mem_cons_of_mem _ he)) ';'
        (mode.opening_isGap (indent + 1)) (mode'.opening_isGap (indent' + 1)) (indent + 1)
        (indent' + 1) hclose
      rw [formatOnto, formatOnto, mode.separator_eq, mode'.separator_eq]
      exact .cons '{' (.gap (mode.opening_isGap _) (mode'.opening_isGap _)
        (ih e List.mem_cons_self _ _ hothers))
  | @closure params body hparams h ih =>
    intro indent indent' after after' hafter
    simp only [formatOnto, List.cons_append, List.append_assoc]
    refine .cons '(' (sameSolid_names mode mode' params (.cons ')' (.gap hspace hspace' ?_)))
    exact .cons '=' (.cons '>' (.gap hspace hspace' (ih indent indent' hafter)))
  | @ifThen test consequent htest hconsequent ih₁ ih₂ =>
    intro indent indent' after after' hafter
    simp only [formatOnto, List.cons_append, List.append_assoc]
    refine .cons 'i' (.cons 'f' (.gap hspace hspace' (.cons '(' (ih₁ indent indent' ?_))))
    refine .cons ')' (.gap hspace hspace' ?_)
    exact sameSolid_guarded hconsequent ih₂ false indent indent' hafter
  | @ifElse test consequent alternate htest hconsequent halternate ih₁ ih₂ ih₃ =>
    intro indent indent' after after' hafter
    simp only [formatOnto, List.cons_append, List.append_assoc]
    refine .cons 'i' (.cons 'f' (.gap hspace hspace' (.cons '(' (ih₁ indent indent' ?_))))
    refine .cons ')' (.gap hspace hspace' (sameSolid_guarded hconsequent ih₂ _ indent indent' ?_))
    exact .cons ' ' (.part Keyword.elseWord.spelling (.cons ' ' (ih₃ indent indent' hafter)))
  | @assign name value hname h ih =>
    intro indent indent' after after' hafter
    simp only [formatOnto, List.cons_append, List.append_assoc]
    refine .part Keyword.letWord.spelling (.cons ' ' (.part name.toList (.gap hspace hspace' ?_)))
    exact .cons '=' (.gap hspace hspace' (ih indent indent' hafter))
  | @binary left op right hleft hright ih₁ ih₂ =>
    intro indent indent' after after' hafter
    have hright' : SameSolid
        (parenthesized (right.needsParens (op.precedence + 1)) (right.formatOnto mode indent) after)
        (parenthesized (right.needsParens (op.precedence + 1)) (right.formatOnto mode' indent')
          after') := sameSolid_parenthesized ih₂ _ indent indent' hafter
    simp only [formatOnto, List.append_assoc]
    refine sameSolid_parenthesized ih₁ _ indent indent' (.gap hspace hspace' (.part op.spelling ?_))
    exact .gap hspace hspace' hright'
  | random =>
    intro indent indent' after after' hafter
    exact hafter.part (Keyword.rand.spelling ++ ['(', ')'])
  | @builtin f argument h ih =>
    intro indent indent' after after' hafter
    exact .part f.spelling (.cons '(' (ih indent indent' (hafter.cons ')')))
  | @call name arguments hname h ih =>
    intro indent indent' after after' hafter
    cases arguments with
    | nil => exact .part name.toList (hafter.part ['(', ')'])
    | cons e es =>
      have hothers := sameSolid_following (fun e he => ih e (List.mem_cons_of_mem _ he)) ','
        hspace hspace' indent indent' (hafter.cons ')')
      exact .part name.toList (.cons '(' (ih e List.mem_cons_self indent indent' hothers))

/-- The texts of a program in two modes are the same but for blanks. -/
theorem PrintableProgram.sameSolid (h : e.PrintableProgram) (mode mode' : Mode) :
    SameSolid (e.format mode 0) (e.format mode' 0) := by
  have hnil : SameSolid [] [] := rfl
  cases h with
  | single h => exact h.sameSolid mode mode' 0 0 hnil
  | @sequence body h hlength =>
    cases body with
    | nil => exact hnil
    | cons e es =>
      have hothers := sameSolid_following
        (fun e he => (h e (List.mem_cons_of_mem _ he)).sameSolid mode mode') ';'
        (mode.opening_isGap 0) (mode'.opening_isGap 0) 0 0 hnil
      rw [format, format, formatOnto, formatOnto, mode.separator_eq, mode'.separator_eq]
      exact (h e List.mem_cons_self).sameSolid mode mode' 0 0 hothers

end Expr

open Calculator.Expr

/-! ## Texts as tokens -/

/-- A text has the tokens of some lexemes, and lacks no bracket. -/
structure ReadsAlone (text : String) (ls : List Lexeme) : Prop where
  fault : (Scan.ofCursor (.ofString text)).fault = none
  supplied : (Scan.ofCursor (.ofString text)).supplied = []
  lexemes : (Scan.ofCursor (.ofString text)).written.map (·.lexeme) = ls

theorem readsAlone {text : String} {ls : List Lexeme} (h : Scan.Reads true text.toList ls)
    (hclosed : Scan.closers ls = []) : ReadsAlone text ls := by
  obtain ⟨hfault, hwritten⟩ := Scan.reads_iff.1 h
  have hsupplied := Scan.supplied_lexemes hfault
  rw [hwritten, hclosed, List.map_nil, List.map_eq_nil_iff] at hsupplied
  exact ⟨hfault, hsupplied, hwritten⟩

/-- A program laid out in any mode has the tokens of the program, with no bracket to be supplied, and
the texts in two modes are the same but for blanks. -/
theorem formatSource_modes [Limits] {source : String} {e : Expr}
    (h : parseSource source = .ok e) :
    (∀ mode, ∃ text : String, formatSource mode source = .ok text.toList ∧
      ReadsAlone text e.lexemes) ∧
    ∀ mode mode' text text', formatSource mode source = .ok text →
      formatSource mode' source = .ok text' → SameSolid text text' := by
  have hprintable := parseSource_printable h
  constructor
  · intro mode
    obtain ⟨hreads, hclosed⟩ := hprintable.reads mode
    refine ⟨String.ofList (e.format mode 0), ?_, readsAlone ?_ hclosed⟩
    · rw [formatSource_of_parse h, String.toList_ofList]
    · rw [String.toList_ofList]
      exact hreads
  · intro mode mode' text text' htext htext'
    obtain rfl := Except.ok.inj ((formatSource_of_parse h mode).symm.trans htext)
    obtain rfl := Except.ok.inj ((formatSource_of_parse h mode').symm.trans htext')
    exact hprintable.sameSolid mode mode'

/-- The text of `(x)(y-z)` without blanks and the one with blanks are read as the same product. -/
theorem formatSource_modes_juxtaposed : ∃ text text' : String,
    formatSource .minified "(x)(y-z)" = .ok text.toList ∧
      formatSource .spaced "(x)(y-z)" = .ok text'.toList ∧
      (∀ t ∈ [text, text'], ReadsAlone t [.identifier "x", .symbol .mul, .symbol .openParen,
        .identifier "y", .symbol .sub, .identifier "z", .symbol .closeParen]) ∧
      SameSolid text.toList text'.toList := by
  obtain ⟨hreads, hsolid⟩ := formatSource_modes parseSource_juxtaposed
  obtain ⟨text, htext, hlexemes⟩ := hreads .minified
  obtain ⟨text', htext', hlexemes'⟩ := hreads .spaced
  refine ⟨text, text', htext, htext', ?_, hsolid _ _ _ _ htext htext'⟩
  exact List.forall_mem_cons.2 ⟨hlexemes, List.forall_mem_singleton.2 hlexemes'⟩

end Calculator
