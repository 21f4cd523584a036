import Calculator.Proofs.Code.Listing
import Calculator.Proofs.Program.RoundTrip

/-
  Listings of programs.  The code of every program is legible, so it has a listing, and programs whose
  listings are the same text have the same code, down to the code inside and the signs of zeros
  (`disassemble_inj`).
-/

namespace Calculator

open Instr

/-- The code of a program is legible. -/
theorem legible_of_compile [Limits] {source : String} {code : List Instr}
    (h : compileSource source = .ok code) : ∀ i ∈ code, i.Legible := by
  obtain ⟨e, he, rfl⟩ := parseSource_of_compile h
  exact (parseSource_printable he).code_legible

theorem disassemble_of_legible {code : List Instr} (h : ∀ i ∈ code, i.Legible) (depth : Nat) :
    disassemble depth code = .ok (listing depth code) := by
  rw [disassemble, Listing.misplaced?_eq h]

/-- Programs have listings, and a listing determines the code of the program. -/
theorem disassemble_inj [Limits] {source source' : String} {code code' : List Instr}
    (h : compileSource source = .ok code) (h' : compileSource source' = .ok code') (depth : Nat) :
    ∃ text text', disassemble depth code = .ok text ∧ disassemble depth code' = .ok text' ∧
      (text = text' → code = code') := by
  have hlegible := legible_of_compile h
  have hlegible' := legible_of_compile h'
  exact ⟨_, _, disassemble_of_legible hlegible depth, disassemble_of_legible hlegible' depth,
    listing_inj hlegible hlegible' depth⟩

theorem compileSource_routine (source : String) (x : Number)
    (hfault : (Scan.ofCursor (.ofString source)).fault = none)
    (hlexemes : (Scan.ofCursor (.ofString source)).all.map (·.lexeme) = [.keyword .letWord,
      .identifier "f", .symbol .assign, .symbol .openParen, .symbol .closeParen, .symbol .arrow,
      .number x]) : compileSource source = .ok [.pushRoutine [.push x], .assign "f"] :=
  compileSource_of_parse (e := .assign "f" (.closure [] (.literal x)))
    (parseSource_of_lexemes hfault hlexemes rfl)

/-- A zero with a sign shows in a listing, also inside a routine. -/
theorem disassemble_inj_zero : ∃ text text',
    disassemble 0 [.pushRoutine [.push 0], .assign "f"] = .ok text ∧
      disassemble 0 [.pushRoutine [.push (-0)], .assign "f"] = .ok text' ∧ text ≠ text' := by
  obtain ⟨text, text', htext, htext', hinj⟩ := disassemble_inj
    (compileSource_routine "let f=()=>0" 0 (by decide +kernel) (by decide +kernel))
    (compileSource_routine "let f=()=>-0" (-0) (by decide +kernel) (by decide +kernel)) 0
  refine ⟨text, text', htext, htext', fun heq => ?_⟩
  injection hinj heq with hroutine
  injection hroutine with hbody
  injection hbody with hpush
  injection hpush with hzero
  exact absurd hzero (by decide)

end Calculator
