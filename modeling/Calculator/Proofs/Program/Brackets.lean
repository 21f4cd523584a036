import Calculator.Proofs.Expr.Brackets
import Calculator.Proofs.Expr.Places
import Calculator.Proofs.Program.RoundTrip
import Calculator.Proofs.Scan.Mark

/-
  Brackets of sources.  The closing brackets that a source lacks are supplied at its end, and the
  source with their texts after it reads as the same tokens without any supplied
  (`tokenize_healed`), so it is the same program or is refused for the same reason (`heals`).  Where
  no closer of a source is out of place, the supplied ones are the only closers that balance its
  brackets.  Where one is, the source is no program: the brackets of every program are balanced
  (`brackets_of_program`).
-/

namespace Calculator

open Calculator.Expr

namespace Scan

/-- The brackets that a source has. -/
def brackets (s : Scan) : List Symbol := Calculator.brackets (s.written.map (·.lexeme))

/-- The texts of the brackets that a source lacks. -/
def healing (s : Scan) : String := String.ofList (s.supplied.flatMap (·.lexeme.text))

theorem flatMap_supplied {c : Cursor} (h : (ofCursor c).fault = none) :
    (ofCursor c).supplied.flatMap (·.lexeme.text) =
      (closers ((ofCursor c).written.map (·.lexeme))).flatMap Symbol.spelling := by
  have hlexemes := congrArg (List.flatMap Lexeme.text) (supplied_lexemes h)
  rw [List.flatMap_map, List.flatMap_map] at hlexemes
  exact hlexemes

end Scan

open Scan

/-- A source with the closing brackets that it lacks. -/
def healed (source : String) : String := source ++ (ofCursor (.ofString source)).healing

/-! ## Supplied brackets -/

theorem reads_healed {source : String} (h : (ofCursor (.ofString source)).fault = none) :
    Reads true (healed source).toList ((ofCursor (.ofString source)).all.map (·.lexeme)) := by
  have hreads := (reads_iff.2 ⟨h, rfl⟩).closers
    (closers_mem ((ofCursor (.ofString source)).written.map (·.lexeme)))
  rw [← flatMap_supplied h, ← supplied_lexemes h, ← List.map_append] at hreads
  have htext : (healed source).toList =
      source.toList ++ (ofCursor (.ofString source)).supplied.flatMap (·.lexeme.text) := by
    rw [healed, String.toList_append, healing, String.toList_ofList]
  rw [htext]
  exact hreads

/-- With the brackets that it lacks a source has the tokens that it had, and lacks none. -/
theorem tokenize_healed {source : String} {tokens : List Token}
    (h : tokenize (.ofString source) = .ok tokens) :
    (ofCursor (.ofString (healed source))).supplied = [] ∧
      ∃ tokens', tokenize (.ofString (healed source)) = .ok tokens' ∧
        tokens'.map (·.lexeme) = tokens.map (·.lexeme) := by
  obtain ⟨hfault, rfl⟩ := tokenize_eq_ok.1 h
  have hreads := reads_healed hfault
  obtain ⟨hfault', hwritten⟩ := reads_iff.1 hreads
  have hclosed : closers ((ofCursor (.ofString source)).all.map (·.lexeme)) = [] := by
    rw [Scan.all, List.map_append, supplied_lexemes hfault]
    exact closers_append_closers rfl
  refine ⟨?_, tokenize_of_reads hreads hclosed⟩
  have hsupplied := supplied_lexemes hfault'
  rw [hwritten, hclosed] at hsupplied
  exact List.map_eq_nil_iff.1 hsupplied

/-- The same expression, or faults of one kind that say the same. -/
inductive SameOutcome : Except Fault Expr → Except Fault Expr → Prop where
  | ok (e : Expr) : SameOutcome (.ok e) (.ok e)
  | error {f g : Fault} (hkind : f.kind? = g.kind?) (hmessage : f.message = g.message) :
      SameOutcome (.error f) (.error g)

theorem message_congr {f g : Fault} (hkind : f.kind? = g.kind?) (hstage : f.stage = g.stage)
    (hdetail : f.detail = g.detail) : f.message = g.message := by
  unfold Fault.message
  rw [hkind, hstage, hdetail]

/-- Sources whose tokens have the same lexemes are the same program, or are refused alike. -/
theorem sameOutcome_of_lexemes [Limits] {source source' : String} {tokens tokens' : List Token}
    (h : tokenize (.ofString source) = .ok tokens) (h' : tokenize (.ofString source') = .ok tokens')
    (hlexemes : tokens.map (·.lexeme) = tokens'.map (·.lexeme)) :
    SameOutcome (parseSource source) (parseSource source') := by
  rw [parseSource_of_tokenize h, parseSource_of_tokenize h']
  have hagree := ofTokens_lexemes hlexemes
  generalize ofTokens tokens = x, ofTokens tokens' = y at hagree
  cases hagree with
  | ok heq =>
    subst heq
    exact .ok _
  | @error f g halike =>
    have hkind : (Fault.parse f).kind? = (Fault.parse g).kind? := congrArg some halike.kind
    exact .error hkind (message_congr hkind rfl halike.detail)

/-- What the supplied brackets of a source come to. -/
structure Heals [Limits] (source : String) (tokens : List Token) : Prop where
  /-- Written into the source they make the same tokens, and no more are supplied. -/
  written : (ofCursor (.ofString (healed source))).supplied = [] ∧
    ∃ tokens', tokenize (.ofString (healed source)) = .ok tokens' ∧
      tokens'.map (·.lexeme) = tokens.map (·.lexeme)
  /-- They make the same program, or one that is refused alike. -/
  outcome : SameOutcome (parseSource (healed source)) (parseSource source)
  /-- They balance brackets whose closers are in place. -/
  balanced : Matched (ofCursor (.ofString source)).brackets →
    Balanced (Calculator.brackets (tokens.map (·.lexeme)))
  /-- No other closers do, be they fewer or more. -/
  only : Matched (ofCursor (.ofString source)).brackets → ∀ d : List Symbol,
    (∀ s ∈ d, s.IsCloser) → (Balanced ((ofCursor (.ofString source)).brackets ++ d) ↔
      d.map Lexeme.symbol = (ofCursor (.ofString source)).supplied.map (·.lexeme))
  /-- A source with balanced brackets lacks none. -/
  none : Balanced (ofCursor (.ofString source)).brackets →
    (ofCursor (.ofString source)).supplied = []

theorem map_symbol_inj {dues d : List Symbol} : dues.map Lexeme.symbol = d.map Lexeme.symbol ↔
    dues = d := List.map_inj_right fun _ _ => Lexeme.symbol.inj

/-- Supplying brackets is writing them at the end of the source. -/
theorem heals [Limits] {source : String} {tokens : List Token}
    (h : tokenize (.ofString source) = .ok tokens) : Heals source tokens := by
  obtain ⟨hnone, tokens', htokens', hlexemes⟩ := tokenize_healed h
  obtain ⟨hfault, rfl⟩ := tokenize_eq_ok.1 h
  have hsupplied := supplied_lexemes hfault
  have hbrackets (b : Symbol) (hb : b ∈ (ofCursor (.ofString source)).brackets) : b.IsBracket :=
    isBracket_of_mem hb
  have honly (hmatched : Matched (ofCursor (.ofString source)).brackets) (d : List Symbol)
      (hd : ∀ s ∈ d, s.IsCloser) : Balanced ((ofCursor (.ofString source)).brackets ++ d) ↔
        d.map Lexeme.symbol = (ofCursor (.ofString source)).supplied.map (·.lexeme) := by
    rw [hsupplied, map_symbol_inj]
    exact balanced_append_iff (closers_of_matched hmatched) hd
  refine ⟨⟨hnone, tokens', htokens', hlexemes⟩, sameOutcome_of_lexemes htokens' h hlexemes, ?_,
    honly, fun hbalanced => ?_⟩
  · intro hmatched
    rw [Scan.all, List.map_append, brackets_append, hsupplied, brackets_closers (closers_mem _)]
    exact (closers_of_matched hmatched).append_dues
  · have hmatched : Matched (ofCursor (.ofString source)).brackets :=
      (LeavesOpen.none hbalanced).matched hbrackets
    have hnil := (honly hmatched [] (List.forall_mem_nil _)).1 (by rwa [List.append_nil])
    exact List.map_eq_nil_iff.1 hnil.symm

set_option maxRecDepth 4000 in
theorem tokenize_nested : tokenize (.ofString "\x7bf(x") = .ok [
    ⟨.symbol .openBrace, ⟨1, 1, 0⟩, ⟨1, 2, 1⟩⟩, ⟨.identifier "f", ⟨1, 2, 1⟩, ⟨1, 3, 2⟩⟩,
    ⟨.symbol .openParen, ⟨1, 3, 2⟩, ⟨1, 4, 3⟩⟩,
    ⟨.identifier "x", ⟨1, 4, 3⟩, ⟨1, 5, 4⟩⟩,
    ⟨.symbol .closeParen, ⟨1, 5, 4⟩, ⟨1, 5, 4⟩⟩,
    ⟨.symbol .closeBrace, ⟨1, 5, 4⟩, ⟨1, 5, 4⟩⟩] := by
  cbv

/-- A call in a block lacks both their closers. -/
theorem heals_nested : Heals "\x7bf(x" [
    ⟨.symbol .openBrace, ⟨1, 1, 0⟩, ⟨1, 2, 1⟩⟩, ⟨.identifier "f", ⟨1, 2, 1⟩, ⟨1, 3, 2⟩⟩,
    ⟨.symbol .openParen, ⟨1, 3, 2⟩, ⟨1, 4, 3⟩⟩,
    ⟨.identifier "x", ⟨1, 4, 3⟩, ⟨1, 5, 4⟩⟩,
    ⟨.symbol .closeParen, ⟨1, 5, 4⟩, ⟨1, 5, 4⟩⟩,
    ⟨.symbol .closeBrace, ⟨1, 5, 4⟩, ⟨1, 5, 4⟩⟩] :=
  heals tokenize_nested

/-! ## Brackets of programs -/

/-- The brackets of a program are balanced, and each closer in its source is in place. -/
theorem brackets_of_program [Limits] (source : String) :
    (∀ e, parseSource source = .ok e →
      Balanced (Calculator.brackets ((ofCursor (.ofString source)).all.map (·.lexeme))) ∧
        Matched (ofCursor (.ofString source)).brackets) ∧
    (¬ Matched (ofCursor (.ofString source)).brackets →
      ∃ fault, parseSource source = .error fault) := by
  have hprogram (e : Expr) (he : parseSource source = .ok e) :
      Balanced (Calculator.brackets ((ofCursor (.ofString source)).all.map (·.lexeme))) ∧
        Matched (ofCursor (.ofString source)).brackets := by
    obtain ⟨tokens, htokens, he⟩ := parseSource_eq_ok he
    obtain ⟨-, rfl⟩ := tokenize_eq_ok.1 htokens
    have hbalanced := balanced_of_ofTokens he
    refine ⟨hbalanced, ?_⟩
    rw [Scan.all, List.map_append, brackets_append] at hbalanced
    refine hbalanced.matched fun b hb => ?_
    rw [← brackets_append] at hb
    exact isBracket_of_mem hb
  refine ⟨hprogram, fun hmatched => ?_⟩
  cases hparse : parseSource source with
  | ok e => exact absurd (hprogram e hparse).2 hmatched
  | error fault => exact ⟨fault, rfl⟩

set_option maxRecDepth 4000 in
/-- A call that lacks its closer is a program, a parenthesis that a brace closes is none. -/
theorem brackets_of_program_crossed :
    (parseSource "f(x" = .ok (.call "f" [.reference "x"]) ∧
      Balanced (Calculator.brackets ((ofCursor (.ofString "f(x")).all.map (·.lexeme)))) ∧
    ∃ fault, parseSource "(x\x7d" = .error fault := by
  have htokens : tokensOf "f(x" = .ok [
      ⟨.identifier "f", ⟨1, 1, 0⟩, ⟨1, 2, 1⟩⟩, ⟨.symbol .openParen, ⟨1, 2, 1⟩, ⟨1, 3, 2⟩⟩,
      ⟨.identifier "x", ⟨1, 3, 2⟩, ⟨1, 4, 3⟩⟩, ⟨.symbol .closeParen, ⟨1, 4, 3⟩, ⟨1, 4, 3⟩⟩] := by
    cbv
  have hparse : parseSource "f(x" = .ok (.call "f" [.reference "x"]) := by
    rw [parseSource, htokens]
    rfl
  have hcrossed : (ofCursor (.ofString "(x\x7d")).brackets = [.openParen, .closeBrace] := by
    cbv
  refine ⟨⟨hparse, ((brackets_of_program "f(x").1 _ hparse).1⟩,
    (brackets_of_program "(x\x7d").2 fun hmatched => ?_⟩
  rw [hcrossed] at hmatched
  obtain ⟨outer, opener, inner, hbefore, hopener, -⟩ := hmatched [.openParen] .closeBrace [] rfl
    (.inr rfl)
  have hmem : opener ∈ [Symbol.openParen] := hbefore ▸ List.mem_append_cons_self
  obtain rfl := List.mem_singleton.1 hmem
  cases hopener

end Calculator
