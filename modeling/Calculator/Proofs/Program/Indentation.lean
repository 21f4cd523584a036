import Calculator.Proofs.Number.Text
import Calculator.Proofs.Program.Counting
import Calculator.Proofs.Scan.Respaced
import Calculator.Proofs.Text.Indentation

/-
  Programs laid out with blocks on lines of their own.  The text of an expression is laid out for the
  braces that are open where it stands, which is the indentation that the printer carries down to it
  (`Printable.laidOut`), and so the text of a program is indented by its braces
  (`formatSource_indented`).
-/

namespace Calculator

namespace Expr

open Text (LaidOut)

variable {depth : Nat} {cs : List Char} {e : Expr}

/-! ## Words and brackets -/

theorem laidOut_name {name : String} (h : Scan.IsName name.toList) :
    LaidOut depth name.toList := by
  refine .word h.ne_nil (List.all_eq_true.2 fun c hc => Text.isPlain_iff.2 ?_)
  have hname := h.chars c hc
  refine ⟨?_, Scan.ne_of_isNameChar hname (by decide), Scan.ne_of_isNameChar hname (by decide),
    Scan.ne_of_isNameChar hname (by decide)⟩
  by_contra hblank
  rw [Text.isNameChar_of_isBlank (Bool.of_not_eq_false hblank)] at hname
  cases hname

theorem laidOut_magnitude (h : Numeral.IsMagnitude cs) : LaidOut depth cs := by
  obtain ⟨⟨c, rest, rfl, -⟩, hchars⟩ := Numeral.IsMagnitude.chars h
  refine .word (List.cons_ne_nil _ _) (List.all_eq_true.2 fun d hd => ?_)
  rcases hchars d hd with hdigit | rfl
  · have hne {d' : Char} (hd' : d'.isDigit = false) : d ≠ d' := by
      rintro rfl
      cases hd'.symm.trans hdigit
    exact Text.isPlain_iff.2
      ⟨Scan.isBlank_of_isDigit hdigit, hne (by decide), hne (by decide), hne (by decide)⟩
  · decide

theorem laidOut_number {x : Number} (h : x.IsNumber) : LaidOut depth (Number.plain x) := by
  obtain ⟨negative, digits, hplain, hdigits, -⟩ := Number.plain_sound h
  rw [hplain]
  have hminus : LaidOut depth ['-'] := .sign (by decide)
  cases negative with
  | false => exact laidOut_magnitude hdigits
  | true => exact hminus.append (laidOut_magnitude hdigits)

theorem laidOut_operator (op : Operator) : LaidOut depth op.spelling := by
  cases op <;> exact .word (List.cons_ne_nil _ _) (by decide)

theorem laidOut_keyword (w : Keyword) : LaidOut depth w.spelling := by
  cases w <;> exact .word (List.cons_ne_nil _ _) (by decide)

theorem laidOut_inBrackets (needed : Bool) (h : LaidOut depth cs) :
    LaidOut depth (inBrackets needed cs) := by
  cases needed with
  | false => exact h
  | true => exact h.parens

theorem laidOut_guarded (h : LaidOut depth cs) : LaidOut depth (guarded cs) := by
  unfold guarded
  split
  · exact h.parens
  · exact h

/-! ## Expressions -/

/-- The statements of a block or of a program, each on a line of its own. -/
theorem laidOut_statements {body : List Expr} (hne : body ≠ [])
    (h : ∀ e ∈ body, LaidOut depth (e.format .indented depth)) :
    LaidOut depth (List.intercalate (Mode.indented.separator depth)
      (body.map (format .indented depth))) :=
  .intercalate (mt List.map_eq_nil_iff.1 hne) (fun _ _ h h' => h.statement h')
    (List.forall_mem_map.2 h)

/-- The text of an expression is laid out for as many open braces as it is indented. -/
theorem Printable.laidOut (h : e.Printable) (indent : Nat) :
    LaidOut indent (e.format .indented indent) := by
  induction h generalizing indent with
  | @literal x h =>
    rw [format, formatOnto, List.append_nil]
    exact laidOut_number h
  | @reference name h =>
    rw [format, formatOnto, List.append_nil]
    exact laidOut_name h
  | @block body h ih =>
    cases body with
    | nil => exact .braces
    | cons e es =>
      rw [format_block]
      exact (laidOut_statements (List.cons_ne_nil e es) fun e he => ih e he (indent + 1)).block
  | @closure params body hparams h ih =>
    have harrow : LaidOut indent ['=', '>'] := .word (List.cons_ne_nil _ _) (by decide)
    have hlist : LaidOut indent
        ('(' :: List.intercalate [',', ' '] (params.map String.toList) ++ [')']) :=
      .listed (List.forall_mem_map.2 fun p hp => laidOut_name (hparams p hp))
    have htext := (hlist.spaced harrow).spaced (ih indent)
    rw [format_closure]
    simpa [Mode.space, Mode.comma] using htext
  | @ifThen test consequent htest hconsequent ih₁ ih₂ =>
    have hhead := (laidOut_keyword .ifWord).spaced (ih₁ indent).parens
    have htext := hhead.spaced (laidOut_guarded (ih₂ indent))
    rw [format_ifThen]
    simpa [Mode.space, Keyword.spelling] using htext
  | @ifElse test consequent alternate htest hconsequent halternate ih₁ ih₂ ih₃ =>
    have hhead := (laidOut_keyword .ifWord).spaced (ih₁ indent).parens
    have hconsequent := laidOut_guarded (laidOut_inBrackets (consequent.needsParens 0) (ih₂ indent))
    have halternate := (laidOut_keyword .elseWord).spaced (ih₃ indent)
    have htext := (hhead.spaced hconsequent).spaced halternate
    rw [format_ifElse]
    simpa [Mode.space, Keyword.spelling] using htext
  | @assign name value hname h ih =>
    have hassign : LaidOut indent ['='] := .sign (by decide)
    have htext := (((laidOut_keyword .letWord).spaced (laidOut_name hname)).spaced hassign).spaced
      (ih indent)
    rw [format_assign]
    simpa [Mode.space] using htext
  | @binary left op right hleft hright ih₁ ih₂ =>
    have hleft := laidOut_inBrackets (left.needsParens op.precedence) (ih₁ indent)
    have hright := laidOut_inBrackets (right.needsParens (op.precedence + 1)) (ih₂ indent)
    have htext := (hleft.spaced (laidOut_operator op)).spaced hright
    rw [format_binary]
    simpa [Mode.space] using htext
  | random => exact (laidOut_keyword .rand).append (.listed (List.forall_mem_nil _))
  | @builtin f argument h ih =>
    have htext := (laidOut_keyword f.keyword).append (ih indent).parens
    rw [format_builtin]
    simpa [Builtin.spelling] using htext
  | @call name arguments hname h ih =>
    have htext := (laidOut_name hname).append
      (.listed (List.forall_mem_map.2 fun e he => ih e he indent))
    rw [format_call]
    simpa [Mode.comma, Mode.space] using htext

/-- The text of a program is laid out outside of all braces. -/
theorem PrintableProgram.laidOut (h : e.PrintableProgram) : LaidOut 0 (e.format .indented 0) := by
  cases h with
  | single h => exact h.laidOut 0
  | @sequence body h hlength =>
    have hne : body ≠ [] := by
      rintro rfl
      cases hlength
    rw [format_sequence]
    exact laidOut_statements hne fun e he => (h e he).laidOut 0

end Expr

/-! ## Programs -/

/-- Every program has a text with each statement on lines of its own, and it is indented by its
braces. -/
theorem formatSource_indented [Limits] {source : String} {e : Expr}
    (h : parseSource source = .ok e) :
    ∃ text, formatSource .indented source = .ok text ∧ Text.Indented text :=
  ⟨_, formatSource_of_parse h .indented, (parseSource_printable h).laidOut.indented⟩

/-- The definition of the loop laid out with blocks on lines of their own. -/
def indentedLoop : String :=
  "let loop = (i, n, f) => \x7b\n    if (i < n) \x7b\n        f();\n" ++
    "        loop(i + 1, n, f)\n    \x7d else \x7b\x7d\n\x7d"

theorem format_loopDefinition : loopDefinition.format .indented 0 = indentedLoop.toList := by
  decide +kernel

theorem formatSource_indented_loop : formatSource .indented loopSource = .ok indentedLoop.toList ∧
    Text.Indented indentedLoop.toList := by
  obtain ⟨text, htext, hindented⟩ := formatSource_indented parseSource_loop
  have heq := formatSource_of_parse parseSource_loop .indented
  rw [format_loopDefinition] at heq
  rw [Except.ok.inj (htext.symm.trans heq)] at hindented
  exact ⟨heq, hindented⟩

end Calculator
