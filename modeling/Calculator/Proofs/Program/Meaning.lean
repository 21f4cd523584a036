import Calculator.Proofs.Program.RoundTrip

/-
  What programs laid out anew compute.  The printer writes the zero with a sign as `0`, so the code
  of a text is the code of its program in which every such zero has lost the sign, and nothing else
  has changed.  Where a program has no such zero, its text computes the same on every machine
  (`formatSource_computesAs`); `1 / -0` is a program whose text computes something else
  (`compute_quotient`).
-/

namespace Calculator

open Calculator.Expr Instr

/-- A text computes what a source does, whatever the machine was left like: the same result or
fault, and the same machine after it. -/
def ComputesAs [Limits] (text source : String) : Prop :=
  ∀ m, Machine.compute text m = Machine.compute source m

theorem computesAs_of_code [Limits] {text source : String}
    (h : compileSource text = compileSource source) : ComputesAs text source := by
  intro m
  unfold Machine.compute
  rw [h]

/-- The code of a text is the code of its program in which no zero has a sign.  It is the same code
just when no number in the program is the zero with a sign, and then the text computes what the
program does. -/
theorem formatSource_computesAs [Limits] {source : String} {code : List Instr}
    (h : compileSource source = .ok code) (mode : Mode) :
    ∃ (e : Expr) (text : String), parseSource source = .ok e ∧
      formatSource mode source = .ok text.toList ∧
      (RefusedAsTooDeep text ∨
        compileSource text = .ok (unsignedAll code) ∧
          (compileSource text = compileSource source ↔ Unsigned e.literals) ∧
          (Unsigned e.literals → ComputesAs text source)) ∧
      (∀ tokens es, tokensOf source = .ok tokens →
        statementsWithin (Limits.read / 3) tokens = .ok es → ¬ RefusedAsTooDeep text) := by
  obtain ⟨e, he, rfl⟩ := parseSource_of_compile h
  have hprintable := parseSource_printable he
  obtain ⟨hwithin, hread⟩ := parseSource_format hprintable mode
  refine ⟨e, String.ofList (e.format mode 0), he, ?_, ?_, ?_⟩
  · rw [formatSource_of_parse he, String.toList_ofList]
  · refine hread.symm.imp_right fun hparse => ?_
    have hcode := compileSource_of_parse hparse
    have hiff : compileSource (String.ofList (e.format mode 0)) = compileSource source ↔
        Unsigned e.literals := by
      rw [hcode, h, Except.ok.injEq]
      exact hprintable.code_normal_eq_iff
    refine ⟨?_, hiff, fun hunsigned => computesAs_of_code (hiff.2 hunsigned)⟩
    rw [hcode, hprintable.code_normal]
  · rintro tokens es htokens hes ⟨found, hdeep⟩
    have hparse := hwithin (nesting_le_of_within he htokens hes)
    cases hparse.symm.trans hdeep

theorem formatSource_computesAs_juxtaposed :
    ∃ text : String, formatSource .minified "(x)(y-z)" = .ok text.toList ∧
      ComputesAs text "(x)(y-z)" := by
  obtain ⟨e, text, he, htext, hmeaning, hwithin⟩ :=
    formatSource_computesAs (compileSource_of_parse parseSource_juxtaposed) .minified
  obtain rfl := Except.ok.inj (parseSource_juxtaposed.symm.trans he)
  rcases hmeaning with hdeep | ⟨-, -, hcomputes⟩
  · exact absurd hdeep (hwithin _ _ tokensOf_juxtaposed rfl)
  · exact ⟨text, htext, hcomputes (List.forall_mem_nil _)⟩

/-! ## A program whose text computes something else -/

theorem read_one : Numeral.read ['1'] = 1 := by decide

theorem read_negativeZero : Numeral.read ['-', '0'] = -0 := by decide

/-- The minus belongs to the zero. -/
theorem reads_quotient :
    Scan.Reads true "1/-0".toList [.number 1, .symbol .div, .number (-0)] := by
  have hone : Numeral.IsMagnitude ['1'] := ⟨['1'], [], by simp, by simp, by simp, .inl rfl⟩
  have hzero : Numeral.IsMagnitude ['0'] := ⟨['0'], [], by simp, by simp, by simp, .inl rfl⟩
  rw [← read_one, ← read_negativeZero]
  exact .magnitude hone (.cons (by decide) (by decide) _)
    (.plain .div (by decide) rfl (.negative hzero .nil (.done rfl)))

theorem parseSource_quotient :
    parseSource "1/-0" = .ok (.binary (.literal 1) .div (.literal (-0))) := by
  obtain ⟨tokens, htokens, hlexemes⟩ := Scan.tokenize_of_reads reads_quotient rfl
  have hparse := parseSource_of_tokenize htokens
  obtain ⟨one, others, rfl, hone, hothers⟩ := List.map_eq_cons_iff.1 hlexemes
  obtain ⟨div, others, rfl, hdiv, hothers⟩ := List.map_eq_cons_iff.1 hothers
  obtain ⟨zero, others, rfl, hzero, hothers⟩ := List.map_eq_cons_iff.1 hothers
  obtain rfl := List.map_eq_nil_iff.1 hothers
  obtain ⟨_, _, _⟩ := one
  obtain ⟨_, _, _⟩ := div
  obtain ⟨_, _, _⟩ := zero
  subst hone hdiv hzero
  rw [hparse]
  rfl

theorem compute_div {source : String} {x y : Number}
    (h : compileSource source = .ok [.push x, .push y, .arithmetic .div]) (m : Machine) :
    (Machine.compute source m).1 = .ok (some (x / y)) := by
  unfold Machine.compute
  rw [h]
  rfl

/-- A quotient by the zero with a sign is written as the quotient by the other zero. -/
theorem compute_quotient : ∃ text : String, formatSource .spaced "1/-0" = .ok text.toList ∧
    ∀ m, (Machine.compute "1/-0" m).1 = .ok (some (1 / -0)) ∧
      (Machine.compute text m).1 = .ok (some (1 / 0)) ∧ (1 / -0 : Number) ≠ 1 / 0 := by
  have hprintable := parseSource_printable parseSource_quotient
  have hparse := (parseSource_format hprintable .spaced).1 (by decide)
  have hcode := compileSource_of_parse hparse
  rw [hprintable.code_normal] at hcode
  have hone : Number.unsignedZero 1 = 1 := by decide
  have hzero : Number.unsignedZero (-0) = 0 := by decide
  refine ⟨_, (formatSource_of_parse parseSource_quotient .spaced).trans
    (congrArg _ String.toList_ofList.symm), fun m => ⟨?_, ?_, by decide⟩⟩
  · exact compute_div (compileSource_of_parse parseSource_quotient) m
  · rw [← hone, ← hzero]
    exact compute_div hcode m

end Calculator
