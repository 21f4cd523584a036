import Calculator.Code
import Calculator.Proofs.Number.ReadBack

/-
  Natural numbers as doubles.  Below `2 ^ 53` each is a double of its own (`natural_unpack`): adding
  one to it gives the next (`natural_add_one`), it is less than another just when the natural number
  is (`natural_lt`), and it is written with its digits (`plain_natural`).
-/

namespace Calculator

open Float.Model Float.Model.UnpackedFloat

/-! ## Order of normal pairs -/

namespace Double

/-- Normal pairs are in the order of their values: by exponent first, since only the least exponent
has short significands. -/
theorem value_lt_iff {m m' : Nat} {e e' : Int} (h : Normal m e) (h' : Normal m' e') :
    (m : ℚ) * 2 ^ e < m' * 2 ^ e' ↔ e < e' ∨ e = e' ∧ m < m' := by
  have hbelow {m m' : Nat} {e e' : Int} (h : Normal m e) (h' : Normal m' e') (he : e < e') :
      (m : ℚ) * 2 ^ e < m' * 2 ^ e' := by
    have hfull : 2 ^ 52 ≤ m' := h'.full.resolve_right (by have := h.least; omega)
    have hbits := h.bits
    calc (m : ℚ) * 2 ^ e < 2 ^ 53 * 2 ^ e :=
          mul_lt_mul_of_pos_right (by exact_mod_cast hbits) (by positivity)
      _ = 2 ^ 52 * 2 ^ (e + 1) := by
        rw [zpow_add₀ two_ne_zero]
        ring
      _ ≤ m' * 2 ^ e' :=
        mul_le_mul (by exact_mod_cast hfull) (zpow_le_zpow_right₀ (by norm_num) (by omega))
          (by positivity) (by positivity)
  rcases lt_trichotomy e e' with he | rfl | he
  · exact iff_of_true (hbelow h h' he) (.inl he)
  · rw [mul_lt_mul_iff_left₀ (by positivity), Nat.cast_lt]
    simp
  · refine iff_of_false (hbelow h' h he).not_gt ?_
    omega

end Double

namespace Number

open Double

/-! ## Natural numbers -/

/-- A natural number as a number. -/
def natural (n : Nat) : Number := Decimal.toNumber ⟨n, 0⟩

theorem natural_zero : natural 0 = 0 :=
  unpack_inj (by rw [natural, Decimal.toNumber_zero, zero_unpack]; rfl)

/-- A natural number has the normal pair of its value. -/
theorem natural_unpack {n : Nat} (hpos : 0 < n) (h : n < 2 ^ 53) : (natural n).toModel.unpack =
    .finite .positive (n * 2 ^ (52 - n.log2)) (0 - (52 - n.log2 : Nat))
      (normal_full hpos h (k := 0) (by decide) (by decide)).pos := by
  have hn := normal_full hpos h (k := 0) (by decide) (by decide)
  rw [natural, Decimal.toNumber_whole hn (by rw [value_full, zpow_zero, mul_one])]
  exact unpack_pack .positive hn

theorem natural_one : natural 1 = 1 := by decide

/-- Adding one to a natural number is exact as long as the sum is below `2 ^ 53`. -/
theorem natural_add_one {n : Nat} (h : n + 1 < 2 ^ 53) : natural n + 1 = natural (n + 1) := by
  rcases Nat.eq_zero_or_pos n with rfl | hpos
  · rw [natural_zero, natural_one]
    decide
  apply unpack_inj
  have hsum := normal_full n.succ_pos h (k := 0) (by decide) (by decide)
  rw [natural_unpack n.succ_pos h, ← natural_one]
  change (Float.Model.pack (UnpackedFloat.add .binary64 (natural n).toModel.unpack
    (natural 1).toModel.unpack)).unpack = _
  have hvalue : ((n : ℚ) * 2 ^ (0 : Int) + (1 : Nat) * 2 ^ (0 : Int)) =
      ((n + 1 : Nat) : ℚ) * 2 ^ (0 : Int) := by
    push_cast
    ring
  rw [natural_unpack hpos (by omega), natural_unpack Nat.one_pos (by decide), add_eq, value_full,
    value_full, hvalue, ← value_full, rounded_normal .positive hsum]
  exact unpack_pack .positive hsum

/-- Natural numbers keep their order. -/
theorem natural_lt {m n : Nat} (hm : m < 2 ^ 53) (hn : n < 2 ^ 53) :
    natural m < natural n ↔ m < n := by
  change decide ((UnpackedFloat.compare (natural m).toModel.unpack (natural n).toModel.unpack ==
    some .lt) = true) = true ↔ _
  rw [decide_eq_true_eq]
  have hzero : (natural 0).toModel.unpack = .zero .positive := by rw [natural_zero, zero_unpack]
  rcases Nat.eq_zero_or_pos m with rfl | hmpos <;> rcases Nat.eq_zero_or_pos n with rfl | hnpos
  · rw [hzero]
    decide
  · rw [hzero, natural_unpack hnpos hn]
    exact iff_of_true rfl hnpos
  · rw [hzero, natural_unpack hmpos hm]
    exact iff_of_false nofun (Nat.not_lt_zero m)
  · have hvalue := value_lt_iff (normal_full hmpos hm (k := 0) (by decide) (by decide))
      (normal_full hnpos hn (k := 0) (by decide) (by decide))
    rw [value_full, value_full, zpow_zero, mul_one, mul_one, Nat.cast_lt] at hvalue
    rw [hvalue, natural_unpack hmpos hm, natural_unpack hnpos hn]
    simp only [UnpackedFloat.compare, beq_iff_eq, Option.some.injEq, Ordering.then_eq_lt,
      compare_lt_iff_lt, compare_eq_iff_eq]

/-- A natural number is written with its digits. -/
theorem plain_natural {n : Nat} (h : n < 2 ^ 53) : plain (natural n) = Nat.toDigits 10 n := by
  rcases Nat.eq_zero_or_pos n with rfl | hpos
  · rw [natural_zero, plain_of_zero zero_unpack]
    rfl
  have hwhole : Binary.isWhole ⟨false, n * 2 ^ (52 - n.log2), 0 - (52 - n.log2 : Nat)⟩ := by
    have hexponent : (-(0 - (52 - n.log2 : Nat) : Int)).toNat = 52 - n.log2 := by omega
    rw [Binary.isWhole, Bool.or_eq_true, beq_iff_eq, hexponent]
    exact .inr (Nat.mul_mod_left _ _)
  have hpart : Binary.wholePart ⟨false, n * 2 ^ (52 - n.log2), 0 - (52 - n.log2 : Nat)⟩ = n := by
    have hvalue := wholePart_value hwhole
    rw [value_full, zpow_zero, mul_one] at hvalue
    exact_mod_cast hvalue
  unfold plain view
  rw [natural_unpack hpos h]
  exact (if_pos hwhole).trans (congrArg (Nat.toDigits 10) hpart)

/-- A natural number has no sign. -/
theorem unsignedZero_natural {n : Nat} (h : n < 2 ^ 53) : unsignedZero (natural n) = natural n := by
  rw [unsignedZero_eq_self_iff, IsNegativeZero]
  rcases Nat.eq_zero_or_pos n with rfl | hpos
  · rw [natural_zero, zero_unpack]
    intro hsign
    cases hsign
  · rw [natural_unpack hpos h]
    intro hzero
    cases hzero

end Number

/-- The comparison of two natural numbers as a number tells which of them is less. -/
theorem Comparison.less_natural {m n : Nat} (hm : m < 2 ^ 53) (hn : n < 2 ^ 53) :
    (Comparison.less.apply (Number.natural m) (Number.natural n) != 0) = decide (m < n) := by
  have hone : ((1 : Number) != 0) = true := by decide
  have hzero : ((0 : Number) != 0) = false := by decide
  rw [apply, holds]
  simp only [Number.natural_lt hm hn]
  by_cases h : m < n
  · simp [h, hone]
  · simp [h, hzero]

end Calculator
