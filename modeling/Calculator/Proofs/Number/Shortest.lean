import Calculator.Proofs.Number.ExactDecimal

/-
  The fewest digits of a double read back.  The search takes a multiple of a power of ten only when
  it reads as the double, and falls back on all digits, which do as well (`shortest_sound`).
-/

namespace Calculator

open Float.Model Float.Model.UnpackedFloat Double

namespace Binary

/-- The double of a normal pair. -/
theorem toNumber_normal {m : Nat} {e : Int} (h : Normal m e) :
    toNumber ⟨false, m, e⟩ = .ofModel (.pack (.finite .positive m e h.pos)) := by
  rw [toNumber]
  simp only [Bool.false_eq_true, if_false]
  rw [round_eq .positive h.pos, rounded_normal .positive h]

/-- All digits of a magnitude have its value. -/
theorem value_exactDecimal (b : Binary) : b.exactDecimal.value = b.significand * 2 ^ b.exponent := by
  unfold exactDecimal Decimal.value
  simp only [Nat.pow_eq]
  split
  · next he =>
    have hpow : (2 : ℚ) ^ b.exponent = 2 ^ b.exponent.toNat := by
      rw [← zpow_natCast, Int.toNat_of_nonneg he]
    rw [hpow]
    push_cast
    rw [mul_one]
  · next he =>
    have hcast : ((-b.exponent).toNat : Int) = -b.exponent := Int.toNat_of_nonneg (by omega)
    have hten : (10 : ℚ) ^ b.exponent = 2 ^ b.exponent * 5 ^ b.exponent := by
      rw [← mul_zpow]
      norm_num
    push_cast
    rw [← zpow_natCast, hcast, hten, zpow_neg, mul_assoc, mul_left_comm _ ((2 : ℚ) ^ b.exponent),
      inv_mul_cancel₀ (zpow_ne_zero _ (by norm_num)), mul_one]

theorem exponent_exactDecimal (b : Binary) : b.exactDecimal.exponent = min b.exponent 0 := by
  unfold exactDecimal
  split <;> simp only <;> omega

theorem toNumber_exactDecimal {b : Binary} (h : Normal b.significand b.exponent) :
    b.exactDecimal.toNumber = .ofModel (.pack (.finite .positive b.significand b.exponent h.pos)) := by
  have hleast := h.least
  have hexponent := b.exponent_exactDecimal
  exact Decimal.toNumber_of_value (by omega) (by omega) h b.value_exactDecimal

theorem readsBack?_sound {b : Binary} {target : Number} {power : Int} {d : Decimal}
    (h : b.readsBack? target power = some d) : (d.toNumber == target) = true := by
  unfold readsBack? at h
  dsimp only at h
  have hnearest : b.nearestMultiple power = (b.inUnits power).1 / (b.inUnits power).2 ∨
      b.nearestMultiple power = (b.inUnits power).1 / (b.inUnits power).2 + 1 := by
    unfold nearestMultiple
    dsimp only
    split <;> omega
  split at h <;> simp only [Option.some.injEq, reduceCtorEq] at h
  · next hbelow habove =>
    subst h
    rcases hnearest with hn | hn <;> rw [hn] <;> assumption
  · subst h; assumption
  · subst h; assumption

theorem readsBack?_exponent {b : Binary} {target : Number} {power : Int} {d : Decimal}
    (h : b.readsBack? target power = some d) : d.exponent = power := by
  unfold readsBack? at h
  dsimp only at h
  split at h <;> simp only [Option.some.injEq, reduceCtorEq] at h <;> rw [← h]

theorem shortestFrom_sound {b : Binary} {target : Number} (hexact : b.exactDecimal.toNumber = target)
    (htarget : ∀ d : Decimal, (d.toNumber == target) = true → d.toNumber = target) (steps : Nat)
    (power : Int) :
    (b.shortestFrom target steps power).toNumber = target ∧
      min (power - steps) (min b.exponent 0) ≤ (b.shortestFrom target steps power).exponent ∧
      (b.shortestFrom target steps power).exponent ≤ max power 0 := by
  induction steps generalizing power with
  | zero =>
    have hexponent := b.exponent_exactDecimal
    refine ⟨hexact, ?_⟩
    rw [shortestFrom]
    omega
  | succ steps ih =>
    rw [shortestFrom]
    cases hd : b.readsBack? target power with
    | none =>
      have := ih (power - 1)
      rw [Option.getD_none]
      push_cast
      exact ⟨this.1, by omega, by omega⟩
    | some d =>
      rw [Option.getD_some, readsBack?_exponent hd]
      push_cast
      exact ⟨htarget d (readsBack?_sound hd), by omega, by omega⟩

/-- The fewest digits read back. -/
theorem shortest_sound {b : Binary} (h : Normal b.significand b.exponent) :
    b.shortest.toNumber = .ofModel (.pack (.finite .positive b.significand b.exponent h.pos)) ∧
      -2048 ≤ b.shortest.exponent ∧ b.shortest.exponent ≤ 2048 := by
  have hpos := h.pos
  have hlog := h.log2_le
  have hleast := h.least
  have hmost := h.most
  have hpower : -400 ≤ b.powerAbove ∧ b.powerAbove ≤ 2048 := by
    unfold powerAbove
    omega
  rw [shortest, if_neg (by omega), toNumber_normal h]
  obtain ⟨hread, hlow, hhigh⟩ := shortestFrom_sound (toNumber_exactDecimal h)
    (fun d hd => Number.eq_of_beq (unpack_pack .positive h) hd) 21 b.powerAbove
  exact ⟨hread, by omega, by omega⟩

end Binary

end Calculator
