import Calculator.Program
import Calculator.Proofs.Code.Normal
import Calculator.Proofs.Expr.Depth
import Calculator.Proofs.Expr.Places
import Calculator.Proofs.Expr.ReadBack

/-
  Programs laid out anew.  The text that the printer gives for a program is read as the program
  again, up to the signs of products and zeros (`parseSource_format`); it has the same code, and
  printing it once more changes nothing.  Only the limit for reading may refuse it, since the
  printer's parentheses nest.
-/

namespace Calculator

open Calculator.Expr

/-! ## What is read of a source -/

theorem parseSource_of_tokenize [Limits] {source : String} {tokens : List Token}
    (h : tokenize (.ofString source) = .ok tokens) :
    parseSource source = (Expr.ofTokens tokens).mapError .parse := by
  rw [parseSource, tokensOf, h]
  rfl

/-- A source with such lexemes, all of its brackets closed, is the program that they are. -/
theorem parseSource_of_lexemes [Limits] {source : String} {ls : List Lexeme} {e : Expr}
    (hfault : (Scan.ofCursor (.ofString source)).fault = none)
    (hlexemes : (Scan.ofCursor (.ofString source)).all.map (·.lexeme) = ls)
    (he : Expr.ofTokens (ls.map (⟨·, .start, .start⟩)) = .ok e) : parseSource source = .ok e := by
  rw [parseSource_of_tokenize (Scan.tokenize_eq_ok.2 ⟨hfault, rfl⟩), mapError_eq_ok]
  have hsame : (ls.map (⟨·, Location.start, Location.start⟩ : Lexeme → Token)).map (·.lexeme) =
      (Scan.ofCursor (.ofString source)).all.map (·.lexeme) := by
    rw [hlexemes, List.map_map]
    exact List.map_id _
  have hagree := ofTokens_lexemes hsame
  rw [he] at hagree
  generalize Expr.ofTokens _ = x at hagree
  cases hagree with
  | ok heq => rw [← heq]

theorem parseSource_eq_ok [Limits] {source : String} {e : Expr}
    (h : parseSource source = .ok e) :
    ∃ tokens, tokenize (.ofString source) = .ok tokens ∧ Expr.ofTokens tokens = .ok e := by
  obtain ⟨tokens, htokens, h⟩ := bind_eq_ok.1 h
  exact ⟨tokens, mapError_eq_ok.1 htokens, mapError_eq_ok.1 h⟩

/-- A program whose tokens nest at most a third as deep as the parser reads has a text that the
parser reads. -/
theorem nesting_le_of_within [Limits] {source : String} {e : Expr}
    (h : parseSource source = .ok e) {tokens : List Token} (htokens : tokensOf source = .ok tokens)
    {es : List Expr} (hes : statementsWithin (Limits.read / 3) tokens = .ok es) :
    e.nesting ≤ Limits.read := by
  obtain ⟨tokens', htokens', hprogram⟩ := parseSource_eq_ok h
  obtain rfl : tokens' = tokens := Except.ok.inj (htokens'.symm.trans (mapError_eq_ok.1 htokens))
  obtain ⟨es', hes', he⟩ := bind_eq_ok.1 hprogram
  have hle : Limits.read / 3 ≤ Limits.read := Nat.div_le_self _ _
  obtain rfl : es' = es := Except.ok.inj (hes'.symm.trans (statementsWithin_mono hle hes))
  exact Nat.le_trans (nesting_ofStatements hes he) (Nat.mul_div_le _ _)

/-- Every program that is read can be written. -/
theorem parseSource_printable [Limits] {source : String} {e : Expr}
    (h : parseSource source = .ok e) : e.PrintableProgram := by
  obtain ⟨tokens, htokens, h⟩ := parseSource_eq_ok h
  exact printable_ofTokens h (Scan.tokenize_legal htokens)

/-- Every program that is read has code. -/
theorem compileSource_of_parse [Limits] {source : String} {e : Expr}
    (h : parseSource source = .ok e) : compileSource source = .ok e.code := by
  obtain ⟨tokens, -, hprogram⟩ := parseSource_eq_ok h
  have hcode : e.toCode = .ok e.code := by
    rw [toCode, (fits_ofTokens hprogram Limits.read_lt_code).2]
  exact bind_eq_ok.2 ⟨e, h, by rw [hcode]; rfl⟩

theorem parseSource_of_compile [Limits] {source : String} {code : List Instr}
    (h : compileSource source = .ok code) : ∃ e, parseSource source = .ok e ∧ e.code = code := by
  obtain ⟨e, he, -⟩ := bind_eq_ok.1 h
  exact ⟨e, he, Except.ok.inj ((compileSource_of_parse he).symm.trans h)⟩

/-- Every program that is read has a text. -/
theorem formatSource_of_parse [Limits] {source : String} {e : Expr}
    (h : parseSource source = .ok e) (mode : Mode) :
    formatSource mode source = .ok (e.format mode 0) := by
  obtain ⟨tokens, -, hprogram⟩ := parseSource_eq_ok h
  have htext : e.toText mode = .ok (e.format mode 0) := by
    rw [toText, (fits_ofTokens hprogram Limits.read_lt_text).1]
  exact bind_eq_ok.2 ⟨e, h, by rw [formatExpr, htext]; rfl⟩

/-! ## What is read of a text -/

/-- A source nests more deeply than is read. -/
def RefusedAsTooDeep [Limits] (source : String) : Prop :=
  ∃ found, parseSource source = .error (.parse (.tooDeep found))

/-- The text of a program is read as its normal form where its nesting is within the limit of the
parser, and is refused only as too deep. -/
theorem parseSource_format [Limits] {e : Expr} (h : e.PrintableProgram) (mode : Mode) :
    (e.nesting ≤ Limits.read → parseSource (String.ofList (e.format mode 0)) = .ok e.normal) ∧
      (parseSource (String.ofList (e.format mode 0)) = .ok e.normal ∨
        RefusedAsTooDeep (String.ofList (e.format mode 0))) := by
  obtain ⟨tokens, htokens, hlexemes⟩ := h.tokenize mode
  have hparse := parseSource_of_tokenize htokens
  constructor
  · intro hdepth
    obtain ⟨es, hes, he⟩ := h.readBack hdepth hlexemes
    rw [hparse, mapError_eq_ok]
    exact bind_eq_ok.2 ⟨es, hes, he⟩
  · -- With a limit great enough the text is read; the limit of the parser can only give up before.
    obtain ⟨es, hes, he⟩ := h.readBack (Nat.le_max_left e.nesting Limits.read) hlexemes
    rcases statementsWithin_refines (Nat.le_max_right e.nesting Limits.read) tokens with
      ⟨found, hdeep⟩ | heq
    · exact .inr ⟨found, by rw [hparse, Expr.ofTokens, hdeep]; rfl⟩
    · refine .inl ?_
      rw [hparse, mapError_eq_ok]
      exact bind_eq_ok.2 ⟨es, heq.trans hes, he⟩

theorem normal_format {e : Expr} (h : e.PrintableProgram) (mode : Mode) :
    e.normal.format mode 0 = e.format mode 0 := by
  cases h with
  | single h => exact h.formatOnto_normal mode 0 []
  | @sequence body h hlength =>
    cases body with
    | nil => cases hlength
    | cons e es =>
      rw [format, format, normal, normalAll, formatOnto, formatOnto,
        (h e List.mem_cons_self).formatOnto_normal,
        formatAllOnto_normal mode _ _ fun e he => (h e (List.mem_cons_of_mem _ he)).formatOnto_normal
          mode 0]

/-- A text stands for a program as well as the source of the program does. -/
structure StandsFor [Limits] (text source : String) (mode : Mode) (e : Expr) : Prop where
  parse : parseSource text = .ok e.normal
  compile : ∃ code code', compileSource source = .ok code ∧ compileSource text = .ok code' ∧
    Instr.sameAll code' code = true
  format : formatSource mode text = .ok text.toList

/-- A program laid out anew stands for the program, unless the text nests more deeply than the
parser reads; a program that nests at most a third as deep as that has no such text. -/
theorem formatSource_standsFor [Limits] {source : String} {e : Expr}
    (h : parseSource source = .ok e) (mode : Mode) :
    ∃ text : String, formatSource mode source = .ok text.toList ∧
      (StandsFor text source mode e ∨ RefusedAsTooDeep text) ∧
      (∀ tokens es, tokensOf source = .ok tokens →
        statementsWithin (Limits.read / 3) tokens = .ok es → StandsFor text source mode e) := by
  have hprintable := parseSource_printable h
  have hstands (hparse : parseSource (String.ofList (e.format mode 0)) = .ok e.normal) :
      StandsFor (String.ofList (e.format mode 0)) source mode e := by
    refine ⟨hparse, ⟨_, _, compileSource_of_parse h, compileSource_of_parse hparse, ?_⟩, ?_⟩
    · exact hprintable.sameAll_code
    · rw [formatSource_of_parse hparse, normal_format hprintable, String.toList_ofList]
  obtain ⟨hwithin, hread⟩ := parseSource_format hprintable mode
  refine ⟨String.ofList (e.format mode 0), ?_, hread.imp_left hstands, ?_⟩
  · rw [formatSource_of_parse h, String.toList_ofList]
  · intro tokens es htokens hes
    exact hstands (hwithin (nesting_le_of_within h htokens hes))

set_option maxRecDepth 4000 in
theorem tokensOf_juxtaposed : tokensOf "(x)(y-z)" = .ok [
    ⟨.symbol .openParen, ⟨1, 1, 0⟩, ⟨1, 2, 1⟩⟩, ⟨.identifier "x", ⟨1, 2, 1⟩, ⟨1, 3, 2⟩⟩,
    ⟨.symbol .closeParen, ⟨1, 3, 2⟩, ⟨1, 4, 3⟩⟩, ⟨.symbol .openParen, ⟨1, 4, 3⟩, ⟨1, 5, 4⟩⟩,
    ⟨.identifier "y", ⟨1, 5, 4⟩, ⟨1, 6, 5⟩⟩, ⟨.symbol .sub, ⟨1, 6, 5⟩, ⟨1, 7, 6⟩⟩,
    ⟨.identifier "z", ⟨1, 7, 6⟩, ⟨1, 8, 7⟩⟩, ⟨.symbol .closeParen, ⟨1, 8, 7⟩, ⟨1, 9, 8⟩⟩] := by
  cbv

theorem parseSource_juxtaposed : parseSource "(x)(y-z)" =
    .ok (.binary (.reference "x") .juxtaposed
      (.binary (.reference "y") .sub (.reference "z"))) := by
  rw [parseSource, tokensOf_juxtaposed]
  rfl

theorem formatSource_standsFor_juxtaposed :
    ∃ text : String, formatSource .minified "(x)(y-z)" = .ok text.toList ∧
      StandsFor text "(x)(y-z)" .minified
        (.binary (.reference "x") .juxtaposed
          (.binary (.reference "y") .sub (.reference "z"))) := by
  obtain ⟨text, htext, -, hstands⟩ := formatSource_standsFor parseSource_juxtaposed .minified
  exact ⟨text, htext, hstands _ _ tokensOf_juxtaposed rfl⟩

end Calculator
