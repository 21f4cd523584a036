import Calculator.Proofs.Expr.TextReads
import Calculator.Proofs.Scan.Tiles

/-
  Printed numbers.  Whichever way a number is written without an exponent, in full, with the fewest
  digits or as a numeral that overflows, the text is one token from its first character to its last: a
  numeral that is equal to the number, and is written with the same text (`tokenize_plain`).
-/

namespace Calculator

namespace Numeral

/-- No character of a magnitude is blank. -/
theorem IsMagnitude.isBlank {cs : List Char} (h : IsMagnitude cs) :
    ∀ c ∈ cs, Text.isBlank c = false := by
  obtain ⟨whole, fraction, -, hwhole, hfraction, hcs⟩ := h
  have hdigits {part : List Char} (hpart : ∀ c ∈ part, c.isDigit) :
      ∀ c ∈ part, Text.isBlank c = false := fun c hc => Scan.isBlank_of_isDigit (hpart c hc)
  rcases hcs with rfl | rfl
  · exact hdigits hwhole
  · exact List.forall_mem_append.2
      ⟨hdigits hwhole, List.forall_mem_cons.2 ⟨by decide, hdigits hfraction⟩⟩

end Numeral

/-- No character of a printed number is blank. -/
theorem Number.isBlank_plain {x : Number} (h : x.IsNumber) :
    ∀ c ∈ plain x, Text.isBlank c = false := by
  obtain ⟨negative, cs, hplain, hcs, -⟩ := plain_sound h
  rw [hplain]
  cases negative with
  | false => exact hcs.isBlank
  | true => exact List.forall_mem_cons.2 ⟨by decide, hcs.isBlank⟩

namespace Scan

/-- A text without blanks that reads as one lexeme, and opens no bracket, is one token. -/
theorem tokenize_single {source : String} {l : Lexeme} (h : Reads true source.toList [l])
    (hblank : ∀ c ∈ source.toList, Text.isBlank c = false) (hclosed : closers [l] = []) :
    tokenize (.ofString source) =
      .ok [⟨l, .start, .ofOffset source.toList.toArray source.toList.length⟩] := by
  obtain ⟨hfault, hlexemes⟩ := reads_iff.1 h
  have hsupplied : (ofCursor (.ofString source)).supplied = [] := by
    rw [supplied_eq_missing hfault, missing, hlexemes, hclosed, List.map_nil]
  have htiles := tiles_ofCursor source
  refine tokenize_eq_ok.2 ⟨hfault, ?_⟩
  rw [all, hsupplied, List.append_nil]
  rw [hfault] at htiles
  generalize (ofCursor (.ofString source)).written = written at htiles hlexemes
  -- Blanks before the token or behind it would be characters of the text.
  have hnone {first last : Nat} (hgap : Blank source.toList.toArray first last)
      (hlast : last ≤ source.toList.length) : first = last := by
    refine Nat.le_antisymm hgap.1 (Nat.le_of_not_lt fun hlt => ?_)
    have hc : source.toList.toArray[first]? = some source.toList[first] := by
      rw [List.getElem?_toArray, List.getElem?_eq_getElem]
    have hfirst := hgap.2 first _ (Nat.le_refl _) hlt hc
    rw [hblank _ (List.getElem_mem _)] at hfirst
    cases hfirst
  cases htiles with
  | done hgap => cases hlexemes
  | token hbefore hlt hle hothers =>
    cases hothers with
    | token => cases hlexemes
    | done hafter =>
      obtain rfl := hnone hbefore (by rw [List.size_toArray] at hle; omega)
      obtain rfl := hnone hafter (by rw [List.size_toArray])
      obtain rfl := List.singleton_inj.1 hlexemes
      rw [Location.ofOffset_zero, List.size_toArray]

/-- A printed number is one token, which takes the whole text: a numeral of a number that is equal to
it and is printed in the same way. -/
theorem tokenize_plain {x : Number} (h : x.IsNumber) :
    ∃ y : Number, tokenize (.ofString (String.ofList (Number.plain x))) = .ok
        [⟨.number y, .start, .ofOffset (Number.plain x).toArray (Number.plain x).length⟩] ∧
      (y == x) = true ∧ Number.plain y = Number.plain x := by
  refine ⟨Number.unsignedZero x, ?_, Number.unsignedZero_beq h, Number.plain_unsignedZero x⟩
  have hreads : Reads true (Number.plain x ++ []) [.number (Number.unsignedZero x)] :=
    .number h (fun _ => rfl) .nil (.done rfl)
  have htext : (String.ofList (Number.plain x)).toList = Number.plain x := String.toList_ofList
  rw [List.append_nil, ← htext] at hreads
  have hsingle := tokenize_single hreads (by rw [htext]; exact Number.isBlank_plain h) rfl
  rwa [htext] at hsingle

/-- The least number above zero has 324 decimals. -/
theorem tokenize_plain_least : Number.IsNumber 5e-324 ∧
    Number.plain 5e-324 = '0' :: '.' :: (List.replicate 323 '0' ++ ['5']) ∧
      ∃ y : Number, tokenize (.ofString (String.ofList (Number.plain 5e-324))) = .ok
          [⟨.number y, .start,
            .ofOffset (Number.plain 5e-324).toArray (Number.plain 5e-324).length⟩] ∧
        (y == 5e-324) = true ∧ Number.plain y = Number.plain 5e-324 := by
  have hnumber : Number.IsNumber 5e-324 := by
    have hleast : (5e-324 : Number) = .ofBits 1 := by decide +kernel
    intro h
    rw [hleast] at h
    cases h
  exact ⟨hnumber, by decide +kernel, tokenize_plain hnumber⟩

end Scan

end Calculator
