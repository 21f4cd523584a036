import Calculator.Proofs.Number.Double

/-
  Rounding by value.  A positive value is cut at the exponent that its size asks for (`target`), what
  is left over is told by a half bit and a bit for the rest (`extended`), and the nearest significand
  is taken (`rounded`).  Every way to compute a double comes to that, from whatever exponent it starts
  and however much it has cut already (`roundWithAccuracy_eq`): so quotients, products, sums and
  differences depend on their exact values only, and a value that is a double is rounded to itself
  (`rounded_normal`).
-/

namespace Calculator.Double

open Float.Model Float.Model.UnpackedFloat

/-! ## Cutting a value -/

/-- A value cut at an exponent: its units, whether half a unit is left, and whether more is. -/
def extended (q : ℚ) (t : Int) : ExtendedMantissa :=
  let halves := ⌊2 * q / 2 ^ t⌋₊
  ⟨halves / 2, halves % 2 != 0, decide ((halves : ℚ) ≠ 2 * q / 2 ^ t)⟩

theorem mantissa_extended (q : ℚ) (t : Int) : (extended q t).mantissa = ⌊q / 2 ^ t⌋₊ := by
  have hhalf : q / 2 ^ t = 2 * q / 2 ^ t / (2 : Nat) := by
    rw [Nat.cast_ofNat]
    ring
  rw [hhalf, Nat.floor_div_natCast]
  rfl

/-- Cutting once more. -/
theorem shiftRightOne_extended (q : ℚ) (t : Int) :
    (extended q t).shiftRightOne = extended q (t + 1) := by
  have hhalf : 2 * q / 2 ^ (t + 1) = 2 * q / 2 ^ t / (2 : Nat) := by
    rw [zpow_add_one₀ two_ne_zero, Nat.cast_ofNat, div_mul_eq_div_div]
  simp only [extended, ExtendedMantissa.shiftRightOne, hhalf, Nat.floor_div_natCast]
  generalize 2 * q / 2 ^ t = x
  -- Something is left of the half just when the number of halves is odd or something was left.
  have hrest : ((⌊x⌋₊ / 2 : Nat) : ℚ) = x / (2 : Nat) ↔ ⌊x⌋₊ % 2 = 0 ∧ (⌊x⌋₊ : ℚ) = x := by
    rw [eq_div_iff (by norm_num), ← Nat.cast_mul]
    constructor
    · intro hx
      have hfloor : ⌊x⌋₊ = ⌊x⌋₊ / 2 * 2 := by
        nth_rewrite 1 [← hx]
        exact Nat.floor_natCast _
      refine ⟨by omega, ?_⟩
      rw [hfloor, hx]
    · rintro ⟨heven, hx⟩
      rwa [Nat.div_mul_cancel (Nat.dvd_of_mod_eq_zero heven)]
  congr 1
  rw [Bool.eq_iff_iff]
  simp only [Bool.or_eq_true, bne_iff_ne, decide_eq_true_eq, ne_eq, hrest]
  tauto

theorem shift_extended (q : ℚ) (t : Int) (n : Nat) : extended q t >>> n = extended q (t + n) := by
  induction n with
  | zero => exact congrArg (extended q) (Int.add_zero t).symm
  | succ n ih =>
    change ExtendedMantissa.shiftRightOne (extended q t >>> n) = _
    rw [ih, shiftRightOne_extended, Nat.cast_succ, Int.add_assoc]

theorem cast_div_eq_iff (n : Nat) {b : Nat} (hb : 0 < b) :
    ((n / b : Nat) : ℚ) = (n : ℚ) / (b : Nat) ↔ n % b = 0 := by
  have hdiv := Nat.div_add_mod n b
  rw [eq_div_iff (by exact_mod_cast hb.ne'), ← Nat.cast_mul, Nat.cast_inj, Nat.mul_comm]
  omega

/-- A quotient of natural numbers is cut by division with remainder. -/
theorem extended_fraction (a : Nat) {b : Nat} (hb : 0 < b) (t : Int) :
    ExtendedMantissa.ofMantissaAndAccuracy (a / b) (accuracyOfFraction (a % b) b) =
      extended (a / b * 2 ^ t) t := by
  have hvalue : 2 * ((a : ℚ) / b * 2 ^ t) / 2 ^ t = (2 * a : Nat) / (b : Nat) := by
    rw [← mul_assoc, mul_div_cancel_right₀ _ (zpow_ne_zero t two_ne_zero)]
    push_cast
    ring
  have hhalves : 2 * a / b = 2 * (a / b) + 2 * (a % b) / b := by
    nth_rewrite 1 [← Nat.div_add_mod a b]
    rw [Nat.mul_add, ← Nat.mul_assoc, Nat.mul_comm 2 b, Nat.mul_assoc, Nat.mul_add_div hb]
  have hrest : decide (((2 * a / b : Nat) : ℚ) ≠ (2 * a : Nat) / (b : Nat)) =
      decide (2 * (a % b) % b ≠ 0) := by
    rw [decide_eq_decide, Nat.mul_mod_mod, not_iff_not, cast_div_eq_iff _ hb]
  have hlt : a % b < b := Nat.mod_lt a hb
  unfold extended
  dsimp only
  rw [hvalue, Nat.floor_div_eq_div, hrest, hhalves]
  clear hvalue hrest hhalves
  generalize a % b = r at *
  generalize a / b = n
  unfold accuracyOfFraction
  rcases Nat.eq_zero_or_pos r with rfl | hr
  · simp [ExtendedMantissa.ofMantissaAndAccuracy]
  have hunits : (2 * n + 1) / 2 = n := by omega
  have hbit : (2 * n + 1) % 2 = 1 := by omega
  rw [if_neg hr.ne']
  rcases Nat.lt_trichotomy (2 * r) b with h | h | h
  · have hdiv : 2 * r / b = 0 := Nat.div_eq_of_lt h
    have hmod : 2 * r % b = 2 * r := Nat.mod_eq_of_lt h
    rw [Nat.compare_eq_lt.2 h, hdiv, hmod]
    simp [ExtendedMantissa.ofMantissaAndAccuracy, hr.ne']
  · rw [Nat.compare_eq_eq.2 h, h, Nat.div_self hb, Nat.mod_self, hunits, hbit]
    rfl
  · have hdiv : 2 * r / b = 1 := Nat.div_eq_of_lt_le (by omega) (by omega)
    have hmod : 2 * r % b ≠ 0 := by
      rw [Nat.mod_eq_sub_mod h.le, Nat.mod_eq_of_lt (by omega)]
      omega
    rw [Nat.compare_eq_gt.2 h, hdiv, hunits, hbit, decide_eq_true hmod]
    rfl

theorem extended_whole (a : Nat) (t : Int) :
    ExtendedMantissa.ofMantissaAndAccuracy a .exact = extended (a * 2 ^ t) t := by
  have h := extended_fraction a Nat.one_pos t
  rwa [Nat.div_one, Nat.mod_one, Nat.cast_one, div_one] at h

/-! ## The exponent of a value -/

/-- The exponent at which a value is rounded. -/
def target (q : ℚ) : Int := max (Int.log 2 q - 52) (-1074)

theorem targetExponent_eq (t : Int) : Format.binary64.targetExponent t = max (t - 53) (-1074) := rfl

/-- The size of a value by its whole units. -/
theorem log_of_floor {q : ℚ} {m : Nat} {t : Int} (hm : 0 < m) (hlow : m * 2 ^ t ≤ q)
    (hhigh : q < (m + 1) * 2 ^ t) : Int.log 2 q = m.log2 + t := by
  have hunit : (0 : ℚ) < 2 ^ t := by positivity
  have hq : 0 < q := lt_of_lt_of_le (by positivity) hlow
  have hbelow : 2 ^ m.log2 ≤ m := Nat.log2_self_le hm.ne'
  have habove : m + 1 ≤ 2 ^ (m.log2 + 1) := Nat.lt_log2_self
  have hle : (m.log2 : Int) + t ≤ Int.log 2 q := by
    rw [← Int.zpow_le_iff_le_log (by decide) hq, Nat.cast_ofNat, zpow_add₀ two_ne_zero, zpow_natCast]
    refine le_trans (mul_le_mul_of_nonneg_right ?_ hunit.le) hlow
    exact_mod_cast hbelow
  have hlt : Int.log 2 q < (m.log2 + 1 : Nat) + t := by
    rw [← Int.lt_zpow_iff_log_lt (by decide) hq, Nat.cast_ofNat, zpow_add₀ two_ne_zero, zpow_natCast]
    refine lt_of_lt_of_le hhigh (mul_le_mul_of_nonneg_right ?_ hunit.le)
    exact_mod_cast habove
  push_cast at hlt
  omega

theorem log_whole {m : Nat} (hm : 0 < m) (t : Int) : Int.log 2 ((m : ℚ) * 2 ^ t) = m.log2 + t :=
  log_of_floor hm le_rfl (mul_lt_mul_of_pos_right (lt_add_one _) (by positivity))

/-- What is left of a value at an exponent that is low enough asks for the exponent of the value. -/
theorem targetExponent_extended {q : ℚ} (hq : 0 < q) {t : Int} (ht : t ≤ target q) :
    Format.binary64.targetExponent (totalExponent (extended q t).mantissa t) = target q := by
  have hunit : (0 : ℚ) < 2 ^ t := by positivity
  rw [mantissa_extended, targetExponent_eq, totalExponent]
  rw [target] at ht ⊢
  generalize hm : ⌊q / 2 ^ t⌋₊ = m
  rcases Nat.eq_zero_or_pos m with rfl | hpos
  · -- Not even one unit is left, so the value is below the least double.
    have hlt : q < 2 ^ t := by rwa [Nat.floor_eq_zero, div_lt_one hunit] at hm
    have hlog : Int.log 2 q < t := (Int.lt_zpow_iff_log_lt (by decide) hq).1 (by exact_mod_cast hlt)
    rw [Nat.log2_zero]
    omega
  · have hbounds := (Nat.floor_eq_iff (by positivity)).1 hm
    rw [le_div_iff₀ hunit, div_lt_iff₀ hunit] at hbounds
    rw [log_of_floor hpos hbounds.1 hbounds.2]
    omega

theorem target_whole {m : Nat} (hm : 0 < m) (t : Int) :
    target (m * 2 ^ t) = Format.binary64.targetExponent (totalExponent m t) := by
  rw [target, log_whole hm, targetExponent_eq, totalExponent]
  omega

theorem le_target_of_full {m : Nat} (hm : 2 ^ 52 ≤ m) (t : Int) : t ≤ target (m * 2 ^ t) := by
  have hlog := (Nat.le_log2 (by omega)).2 hm
  rw [target, log_whole (by omega)]
  omega

theorem Normal.log2_le {m : Nat} {e : Int} (h : Normal m e) : m.log2 ≤ 52 := by
  have := (Nat.log2_lt (by have := h.pos; omega)).2 h.bits
  omega

/-- A normal pair has the exponent at which its value is rounded. -/
theorem Normal.target_value {m : Nat} {e : Int} (h : Normal m e) : target (m * 2 ^ e) = e := by
  have hlog := h.log2_le
  have hleast := h.least
  rw [target, log_whole h.pos]
  rcases h.full with hfull | rfl
  · rw [log2_of_full h.bits hfull]
    omega
  · omega

/-! ## Rounding -/

/-- The double nearest to a value that is not negative, with a sign. -/
def rounded (s : Sign) (q : ℚ) : UnpackedFloat :=
  let final := shiftToTargetExponent .binary64 (extended q (target q)).roundedMantissa (target q)
    .exact
  if h : final.1.mantissa = 0 then .zero s
  else .finite s final.1.mantissa final.2 (Nat.pos_of_ne_zero h)

/-- What has been cut exactly, and not too much of it, is rounded by its value. -/
theorem roundWithAccuracy_eq (s : Sign) {q : ℚ} (hq : 0 < q) {m : Nat} {t : Int} {a : Accuracy}
    (h : ExtendedMantissa.ofMantissaAndAccuracy m a = extended q t) (ht : t ≤ target q) :
    roundWithAccuracy .binary64 s m t a = rounded s q := by
  have hm : m = (extended q t).mantissa := by
    rw [← h]
    cases a with
    | exact => rfl
    | inexact o => cases o <;> rfl
  have hshift : shiftToTargetExponent .binary64 m t a = (extended q (target q), target q) := by
    have hamount : t + ((target q - t).toNat : Int) = target q := by omega
    rw [shiftToTargetExponent, hm, targetExponent_extended hq ht, ← hm]
    simp only [shiftToExponent]
    rw [h, shift_extended, hamount]
  unfold roundWithAccuracy rounded
  rw [hshift]

/-- A double is rounded to itself. -/
theorem rounded_normal (s : Sign) {m : Nat} {e : Int} (h : Normal m e) :
    rounded s (m * 2 ^ e) = .finite s m e h.pos := by
  have hshift : shiftToTargetExponent .binary64 m e .exact =
      (ExtendedMantissa.ofMantissaAndAccuracy m .exact, e) := by
    rw [shiftToTargetExponent, ← target_whole h.pos, h.target_value]
    simp only [shiftToExponent, Int.sub_self]
    exact congrArg _ (Int.add_zero e)
  have hrounded : (ExtendedMantissa.ofMantissaAndAccuracy m .exact).roundedMantissa = m := rfl
  have hmantissa : (ExtendedMantissa.ofMantissaAndAccuracy m .exact).mantissa = m := rfl
  have hpos := h.pos
  simp only [rounded, h.target_value, ← extended_whole, hrounded, hshift, hmantissa]
  exact dif_neg (by omega)

theorem rounded_zero (s : Sign) : rounded s 0 = .zero s := by
  have htarget : target 0 = -52 := by
    rw [target, Int.log_zero_right]
    rfl
  have hextended (t : Int) : extended 0 t = ⟨0, false, false⟩ := by simp [extended]
  simp only [rounded, htarget, hextended]
  rfl

/-! ## Operations -/

/-- More bits and a lower exponent, the same value. -/
theorem value_shift (a k : Nat) (i : Int) : ((a * 2 ^ k : Nat) : ℚ) * 2 ^ (i - k) = a * 2 ^ i := by
  push_cast
  rw [mul_assoc, ← zpow_natCast, ← zpow_add₀ two_ne_zero]
  congr 2
  omega

theorem roundWithAccuracy_exact (s : Sign) {m : Nat} (hm : 0 < m) {t : Int}
    (ht : t ≤ target (m * 2 ^ t)) :
    roundWithAccuracy .binary64 s m t .exact = rounded s (m * 2 ^ t) :=
  roundWithAccuracy_eq s (by positivity) (extended_whole m t) ht

theorem round_eq (s : Sign) {m : Nat} (hm : 0 < m) (i : Int) :
    UnpackedFloat.round .binary64 s m i = rounded s (m * 2 ^ i) := by
  rw [UnpackedFloat.round, ← target_whole hm]
  simp only [decreaseExponent, Nat.shiftLeft_eq]
  have hvalue := value_shift m (i - target (m * 2 ^ i)).toNat i
  have hround := roundWithAccuracy_exact s (m := m * 2 ^ (i - target (m * 2 ^ i)).toNat)
    (by positivity) (t := i - (i - target (m * 2 ^ i)).toNat)
  rw [hvalue] at hround
  exact hround (by omega)

theorem mul_eq (s₁ s₂ : Sign) {m₁ m₂ : Nat} {e₁ e₂ : Int} (h₁ : 2 ^ 52 ≤ m₁) (h₂ : 0 < m₂) :
    UnpackedFloat.mul .binary64 (.finite s₁ m₁ e₁ (by omega)) (.finite s₂ m₂ e₂ h₂) =
      rounded (s₁ * s₂) (m₁ * 2 ^ e₁ * (m₂ * 2 ^ e₂)) := by
  have hfull : 2 ^ 52 ≤ m₁ * m₂ := h₁.trans (Nat.le_mul_of_pos_right _ h₂)
  have hvalue : (m₁ : ℚ) * 2 ^ e₁ * (m₂ * 2 ^ e₂) = (m₁ * m₂ : Nat) * 2 ^ (e₁ + e₂) := by
    rw [zpow_add₀ two_ne_zero]
    push_cast
    ring
  rw [hvalue]
  exact roundWithAccuracy_exact (s₁ * s₂) (by omega) (le_target_of_full hfull _)

theorem div_eq (s₁ s₂ : Sign) {m₁ m₂ : Nat} {e₁ e₂ : Int} (h₁ : 0 < m₁) (h₂ : 0 < m₂) :
    UnpackedFloat.div .binary64 (.finite s₁ m₁ e₁ h₁) (.finite s₂ m₂ e₂ h₂) =
      rounded (s₁ / s₂) (m₁ * 2 ^ e₁ / (m₂ * 2 ^ e₂)) := by
  generalize hq : (m₁ : ℚ) * 2 ^ e₁ / (m₂ * 2 ^ e₂) = q
  generalize ht : min (e₁ - e₂) (Format.binary64.targetExponent
    (totalExponent m₁ e₁ - totalExponent m₂ e₂)) = t
  have hpos : 0 < q := by
    rw [← hq]
    positivity
  -- The estimate of the size of the quotient is not above its true size.
  have hsize : (m₁.log2 : Int) + e₁ - (m₂.log2 + 1 + e₂) ≤ Int.log 2 q := by
    have hlow : (2 : ℚ) ^ ((m₁.log2 : Int) + e₁) ≤ m₁ * 2 ^ e₁ := by
      rw [zpow_add₀ two_ne_zero, zpow_natCast]
      refine mul_le_mul_of_nonneg_right ?_ (by positivity)
      exact_mod_cast Nat.log2_self_le h₁.ne'
    have hhigh : (m₂ : ℚ) * 2 ^ e₂ ≤ 2 ^ ((m₂.log2 : Int) + 1 + e₂) := by
      rw [zpow_add₀ two_ne_zero, ← Nat.cast_succ, zpow_natCast]
      refine mul_le_mul_of_nonneg_right ?_ (by positivity)
      exact_mod_cast Nat.lt_log2_self.le
    rw [← Int.zpow_le_iff_le_log (by decide) hpos, Nat.cast_ofNat, zpow_sub₀ two_ne_zero, ← hq]
    exact div_le_div₀ (by positivity) hlow (by positivity) hhigh
  have htarget : t ≤ target q := by
    rw [targetExponent_eq, totalExponent, totalExponent] at ht
    rw [target]
    omega
  have hvalue : ((m₁ * 2 ^ (e₁ - e₂ - t).toNat : Nat) : ℚ) / m₂ * 2 ^ t = q := by
    have hshift := value_shift m₁ (e₁ - e₂ - t).toNat (e₁ - e₂)
    rw [show e₁ - e₂ - ((e₁ - e₂ - t).toNat : Int) = t by omega] at hshift
    rw [div_mul_eq_mul_div, hshift, zpow_sub₀ two_ne_zero, ← hq]
    field_simp
  simp only [UnpackedFloat.div, divCore, ht, Nat.shiftLeft_eq]
  refine roundWithAccuracy_eq _ hpos ?_ htarget
  rw [← hvalue]
  exact extended_fraction _ h₂ t

/-- A significand brought down to a lower exponent has the same value. -/
theorem value_lowered (a : Nat) {i t : Int} (h : t ≤ i) :
    ((a * 2 ^ (i - t).toNat : Nat) : ℚ) * 2 ^ t = a * 2 ^ i := by
  have hvalue := value_shift a (i - t).toNat i
  rwa [show i - ((i - t).toNat : Int) = t by omega] at hvalue

theorem add_eq {m₁ m₂ : Nat} {e₁ e₂ : Int} (h₁ : 0 < m₁) (h₂ : 0 < m₂) :
    UnpackedFloat.add .binary64 (.finite .positive m₁ e₁ h₁) (.finite .positive m₂ e₂ h₂) =
      rounded .positive (m₁ * 2 ^ e₁ + m₂ * 2 ^ e₂) := by
  generalize ht : min e₁ e₂ = t
  have hsum : ((m₁ * 2 ^ (e₁ - t).toNat + m₂ * 2 ^ (e₂ - t).toNat : Nat) : ℚ) * 2 ^ t =
      m₁ * 2 ^ e₁ + m₂ * 2 ^ e₂ := by
    rw [Nat.cast_add, add_mul, value_lowered m₁ (by omega), value_lowered m₂ (by omega)]
  have hpos : 0 < m₁ * 2 ^ (e₁ - t).toNat + m₂ * 2 ^ (e₂ - t).toNat :=
    Nat.add_pos_left (by positivity) _
  simp only [UnpackedFloat.add, decreaseExponent, ht, Nat.shiftLeft_eq, Sign.apply, ← Nat.cast_add]
  have hcompare : compare ((m₁ * 2 ^ (e₁ - t).toNat + m₂ * 2 ^ (e₂ - t).toNat : Nat) : Int) 0 =
      .gt := by
    rw [Int.compare_eq_gt]
    exact_mod_cast hpos
  rw [UnpackedFloat.normalize, hcompare, Int.toNat_natCast, round_eq .positive hpos, hsum]

/-- A difference that is not negative; that of equal values is the zero without a sign. -/
theorem sub_eq {m₁ m₂ : Nat} {e₁ e₂ : Int} (h₁ : 0 < m₁) (h₂ : 0 < m₂)
    (h : (m₂ : ℚ) * 2 ^ e₂ ≤ m₁ * 2 ^ e₁) :
    UnpackedFloat.sub .binary64 (.finite .positive m₁ e₁ h₁) (.finite .positive m₂ e₂ h₂) =
      rounded .positive (m₁ * 2 ^ e₁ - m₂ * 2 ^ e₂) := by
  generalize ht : min e₁ e₂ = t
  have hlow₁ := value_lowered m₁ (show t ≤ e₁ by omega)
  have hlow₂ := value_lowered m₂ (show t ≤ e₂ by omega)
  simp only [UnpackedFloat.sub, decreaseExponent, ht, Nat.shiftLeft_eq, Sign.apply]
  rw [← hlow₁, ← hlow₂] at h ⊢
  generalize m₁ * 2 ^ (e₁ - t).toNat = a at *
  generalize m₂ * 2 ^ (e₂ - t).toNat = b at *
  have hle : b ≤ a := by
    have hcast := le_of_mul_le_mul_right h (by positivity)
    exact_mod_cast hcast
  rw [← Nat.cast_sub hle, ← sub_mul, ← Nat.cast_sub hle, UnpackedFloat.normalize]
  rcases Nat.eq_zero_or_pos (a - b) with hzero | hpos
  · rw [hzero, Nat.cast_zero, Nat.cast_zero, zero_mul, rounded_zero]
    rfl
  · have hcompare : compare ((a - b : Nat) : Int) 0 = .gt := by
      rw [Int.compare_eq_gt]
      exact_mod_cast hpos
    rw [hcompare, Int.toNat_natCast, round_eq .positive hpos]

end Calculator.Double
