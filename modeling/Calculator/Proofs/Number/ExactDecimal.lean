import Calculator.Number.Decimal
import Calculator.Proofs.Number.Rounding

/-
  Decimals as doubles.  `Decimal.toNumber` takes one of two ways, by a table of powers of ten when
  they and the digits are doubles themselves, and by exact integers otherwise.  Both round the exact
  value of the decimal (`toNumber_eq`), so decimals of one value are one number, and a decimal that is
  exactly a double is read as that double (`toNumber_of_value`).  No decimal is read as NaN
  (`toNumber_ne_nan`).
-/

namespace Calculator

open Float.Model Float.Model.UnpackedFloat Double

/-! ## Small numbers that are doubles -/

namespace Double

theorem full_bounds {a : Nat} (h₀ : 0 < a) (h : a < 2 ^ 53) :
    2 ^ 52 ≤ a * 2 ^ (52 - a.log2) ∧ a * 2 ^ (52 - a.log2) < 2 ^ 53 := by
  have hlog : a.log2 < 53 := (Nat.log2_lt (by omega)).2 h
  have hlow : 2 ^ a.log2 ≤ a := Nat.log2_self_le h₀.ne'
  have hhigh : a < 2 ^ (a.log2 + 1) := Nat.lt_log2_self
  constructor
  · calc 2 ^ 52 = 2 ^ a.log2 * 2 ^ (52 - a.log2) := by
          rw [← pow_add]
          congr 1
          omega
      _ ≤ a * 2 ^ (52 - a.log2) := Nat.mul_le_mul_right _ hlow
  · calc a * 2 ^ (52 - a.log2) < 2 ^ (a.log2 + 1) * 2 ^ (52 - a.log2) :=
          Nat.mul_lt_mul_of_pos_right hhigh (by positivity)
      _ = 2 ^ 53 := by
        rw [← pow_add]
        congr 1
        omega

/-- The normal pair of a small natural number times a power of two. -/
theorem normal_full {a : Nat} (h₀ : 0 < a) (h : a < 2 ^ 53) {k : Int} (hlow : -1000 ≤ k)
    (hhigh : k ≤ 900) : Normal (a * 2 ^ (52 - a.log2)) (k - (52 - a.log2 : Nat)) := by
  obtain ⟨hl, hu⟩ := full_bounds h₀ h
  exact ⟨by omega, hu, by omega, .inl hl, by omega⟩

theorem value_full (a : Nat) (k : Int) :
    ((a * 2 ^ (52 - a.log2) : Nat) : ℚ) * 2 ^ (k - (52 - a.log2 : Nat)) = a * 2 ^ k :=
  value_shift a _ k

theorem natural_toFloat {n : Nat} (h₀ : 0 < n) (h : n < 2 ^ 53) :
    n.toUInt64.toFloat.toModel.unpack =
      .finite .positive (n * 2 ^ (52 - n.log2)) (0 - (52 - n.log2 : Nat))
        (normal_full h₀ h (k := 0) (by decide) (by decide)).pos := by
  have hn := normal_full h₀ h (k := 0) (by decide) (by decide)
  have hsmall : n.toUInt64.toNat = n := by
    rw [Nat.toUInt64_eq, UInt64.toNat_ofNat']
    omega
  have hcompare : compare (n : Int) 0 = .gt := by
    rw [Int.compare_eq_gt]
    omega
  have hround : UnpackedFloat.ofUInt64 .binary64 n.toUInt64 =
      .finite .positive (n * 2 ^ (52 - n.log2)) (0 - (52 - n.log2 : Nat)) hn.pos := by
    rw [UnpackedFloat.ofUInt64, hsmall]
    simp only [UnpackedFloat.ofNat, UnpackedFloat.ofInt, UnpackedFloat.normalize, hcompare,
      Int.toNat_natCast]
    rw [round_eq .positive h₀, ← value_full, rounded_normal .positive hn]
  change (Float.Model.pack (UnpackedFloat.ofUInt64 .binary64 n.toUInt64)).unpack = _
  rw [hround]
  exact unpack_pack .positive hn

theorem five_pow_lt {k : Nat} (hk : k ≤ 22) : 5 ^ k < 2 ^ 53 :=
  Nat.lt_of_le_of_lt (Nat.pow_le_pow_right (by decide) hk) (by decide)

theorem powersOfTen_size : Float.exactlyRepresentablePowersOfTen.size = 23 := rfl

theorem lt_powersOfTen_size {k : Nat} (hk : k ≤ 22) :
    k < Float.exactlyRepresentablePowersOfTen.size := by
  rw [powersOfTen_size]
  omega

theorem powerOfTen_toModel : ∀ k : Fin Float.exactlyRepresentablePowersOfTen.size,
    Float.exactlyRepresentablePowersOfTen[k] =
      .ofModel (.pack (.finite .positive (5 ^ k.val * 2 ^ (52 - (5 ^ k.val).log2))
        (k.val - (52 - (5 ^ k.val).log2 : Nat)) (by positivity))) := by
  decide

/-- The powers of ten in the table are exact. -/
theorem powerOfTen_unpack {k : Nat} (hk : k < Float.exactlyRepresentablePowersOfTen.size) :
    Float.exactlyRepresentablePowersOfTen[k].toModel.unpack =
      .finite .positive (5 ^ k * 2 ^ (52 - (5 ^ k).log2)) (k - (52 - (5 ^ k).log2 : Nat))
        (by positivity) := by
  have htable := powerOfTen_toModel ⟨k, hk⟩
  have hsize := powersOfTen_size
  simp only [Fin.getElem_fin] at htable
  rw [htable]
  exact unpack_pack .positive
    (normal_full (by positivity) (five_pow_lt (by omega)) (k := k) (by omega) (by omega))

theorem five_mul_two_pow (k : Nat) : ((5 ^ k : Nat) : ℚ) * 2 ^ (k : Int) = 10 ^ k := by
  rw [zpow_natCast]
  push_cast
  rw [← mul_pow]
  norm_num

end Double

/-! ## Decimals by value -/

namespace Double

/-- The exact way rounds the value. -/
theorem ofScientific_eq (n : Nat) {k : Int} (hlow : -2048 ≤ k) (hhigh : k ≤ 2048) :
    UnpackedFloat.ofScientific .binary64 n k = rounded .positive (n * 10 ^ k) := by
  unfold UnpackedFloat.ofScientific
  split
  · next hn => rw [hn, Nat.cast_zero, zero_mul, rounded_zero]
  · next hn =>
    have hbig : ¬ k > 2 ^ Format.binary64.exponentBits := by
      change ¬ k > 2 ^ 11
      omega
    have hsmall : ¬ k < -((2 ^ Format.binary64.exponentBits : Int) + n.log2) := by
      change ¬ k < -(2 ^ 11 + (n.log2 : Int))
      omega
    rw [if_neg hbig, if_neg hsmall]
    split
    · next hk =>
      have hten : ((10 ^ k.toNat : Nat) : ℚ) * 2 ^ (0 : Int) = 10 ^ k := by
        rw [zpow_zero, mul_one, Nat.cast_pow, ← zpow_natCast, Int.toNat_of_nonneg hk]
        rfl
      have hdigits : ((n <<< 53 : Nat) : ℚ) * 2 ^ (-53 : Int) = n := by
        have hvalue := value_shift n 53 0
        rwa [zpow_zero, mul_one, ← Nat.shiftLeft_eq] at hvalue
      have hfull : 2 ^ 52 ≤ n <<< 53 := by
        rw [Nat.shiftLeft_eq]
        omega
      have hmul : UnpackedFloat.mul .binary64 (.finite .positive (n <<< 53) (-53) (by omega))
          (.finite .positive (10 ^ k.toNat) 0 (by positivity)) = _ :=
        mul_eq .positive .positive hfull (by positivity)
      rw [hten, hdigits] at hmul
      exact hmul
    · next hk =>
      have hten : (n : ℚ) * 2 ^ (0 : Int) / ((10 ^ (-k).toNat : Nat) * 2 ^ (0 : Int)) = n * 10 ^ k := by
        rw [zpow_zero, mul_one, mul_one, Nat.cast_pow, ← zpow_natCast, Int.toNat_of_nonneg (by omega),
          zpow_neg, div_inv_eq_mul]
        rfl
      rw [div_eq, hten]
      rfl

end Double

namespace Decimal

/-- The value of a decimal. -/
def value (d : Decimal) : ℚ := d.digits * 10 ^ d.exponent

theorem value_natural (n : Nat) : value ⟨n, 0⟩ = n := by
  rw [value, zpow_zero, mul_one]

theorem toNumber_zero (e : Int) : toNumber ⟨0, e⟩ = .ofModel (.pack (.zero .positive)) := by
  have hzero : (Nat.toUInt64 0).toFloat.toModel.unpack = .zero .positive := rfl
  unfold toNumber Float.ofScientific
  split
  · next he =>
    split
    · next hfast =>
      change Float.ofModel (.pack (UnpackedFloat.mul .binary64
        (Nat.toUInt64 0).toFloat.toModel.unpack (Float.Model.unpack _))) = _
      rw [hzero, powerOfTen_unpack (lt_powersOfTen_size hfast.2)]
      rfl
    · rfl
  · next he =>
    split
    · next hfast =>
      change Float.ofModel (.pack (UnpackedFloat.div .binary64
        (Nat.toUInt64 0).toFloat.toModel.unpack (Float.Model.unpack _))) = _
      rw [hzero, powerOfTen_unpack (lt_powersOfTen_size hfast.2)]
      rfl
    · rfl

theorem ofScientific_natural {n : Nat} (hn : 0 < n) {k : Nat} (hk : k ≤ 2048) :
    Float.ofScientific n false k = .ofModel (.pack (rounded .positive (n * 10 ^ (k : Int)))) := by
  unfold Float.ofScientific
  split
  · next hfast =>
    change Float.ofModel (.pack (UnpackedFloat.mul .binary64 (Float.Model.unpack _)
      (Float.Model.unpack _))) = _
    rw [natural_toFloat hn hfast.1, powerOfTen_unpack (lt_powersOfTen_size hfast.2),
      mul_eq _ _ (full_bounds hn hfast.1).1, value_full, value_full, five_mul_two_pow, zpow_zero,
      mul_one, zpow_natCast]
    rfl
  · change Float.ofModel (.pack (UnpackedFloat.ofScientific .binary64 n (k : Int))) = _
    rw [ofScientific_eq n (by omega) (by omega)]

theorem ofScientific_fraction {n : Nat} (hn : 0 < n) {k : Nat} (hk : k ≤ 2048) :
    Float.ofScientific n true k = .ofModel (.pack (rounded .positive (n * 10 ^ (-(k : Int))))) := by
  unfold Float.ofScientific
  split
  · next hfast =>
    change Float.ofModel (.pack (UnpackedFloat.div .binary64 (Float.Model.unpack _)
      (Float.Model.unpack _))) = _
    rw [natural_toFloat hn hfast.1, powerOfTen_unpack (lt_powersOfTen_size hfast.2), div_eq,
      value_full, value_full, five_mul_two_pow, zpow_zero, mul_one, zpow_neg, zpow_natCast,
      div_eq_mul_inv]
    rfl
  · change Float.ofModel (.pack (UnpackedFloat.ofScientific .binary64 n (Int.negOfNat k))) = _
    rw [Int.negOfNat_eq, ofScientific_eq n]
    · rfl
    · change -2048 ≤ -(k : Int)
      omega
    · change -(k : Int) ≤ 2048
      omega

/-- A decimal is the double nearest to its value. -/
theorem toNumber_eq {d : Decimal} (hlow : -2048 ≤ d.exponent) (hhigh : d.exponent ≤ 2048) :
    d.toNumber = .ofModel (.pack (rounded .positive d.value)) := by
  obtain ⟨n, e⟩ := d
  rcases Nat.eq_zero_or_pos n with rfl | hn
  · rw [toNumber_zero, value, Nat.cast_zero, zero_mul, rounded_zero]
  rw [toNumber, value]
  dsimp only at hlow hhigh ⊢
  split
  · next he =>
    have hcast : (e.toNat : Int) = e := Int.toNat_of_nonneg he
    rw [ofScientific_natural hn (by omega), hcast]
  · next he =>
    have hcast : ((-e).toNat : Int) = -e := Int.toNat_of_nonneg (by omega)
    rw [ofScientific_fraction hn (by omega), hcast, Int.neg_neg]

/-- Decimals of one value are one number. -/
theorem toNumber_congr {d d' : Decimal} (hd : -2048 ≤ d.exponent ∧ d.exponent ≤ 2048)
    (hd' : -2048 ≤ d'.exponent ∧ d'.exponent ≤ 2048) (h : d.value = d'.value) :
    d.toNumber = d'.toNumber := by
  rw [toNumber_eq hd.1 hd.2, toNumber_eq hd'.1 hd'.2, h]

/-- A decimal that is exactly a double is read as that double. -/
theorem toNumber_of_value {d : Decimal} (hlow : -2048 ≤ d.exponent) (hhigh : d.exponent ≤ 2048)
    {m : Nat} {e : Int} (h : Normal m e) (hv : d.value = m * 2 ^ e) :
    d.toNumber = .ofModel (.pack (.finite .positive m e h.pos)) := by
  rw [toNumber_eq hlow hhigh, hv, rounded_normal .positive h]

/-- So is a natural number. -/
theorem toNumber_whole {n m : Nat} {e : Int} (h : Normal m e) (hv : (n : ℚ) = m * 2 ^ e) :
    toNumber ⟨n, 0⟩ = .ofModel (.pack (.finite .positive m e h.pos)) :=
  toNumber_of_value (Int.neg_ofNat_le_ofNat _ _) (Int.natCast_nonneg _) h
    ((value_natural n).trans hv)

/-! ## Decimals and NaN -/

theorem natural_toFloat_ne_nan (n : Nat) : n.toUInt64.toFloat.toModel.unpack ≠ .notANumber := by
  refine unpack_pack_ne_nan ?_
  simp only [UnpackedFloat.ofUInt64, UnpackedFloat.ofNat, UnpackedFloat.ofInt, UnpackedFloat.normalize]
  split
  · exact round_ne_nan _ _ _
  · intro hzero
    cases hzero
  · exact round_ne_nan _ _ _

theorem ofScientific_ne_nan (m : Nat) (e : Int) :
    UnpackedFloat.ofScientific .binary64 m e ≠ .notANumber := by
  unfold UnpackedFloat.ofScientific
  split
  · nofun
  split
  · nofun
  split
  · nofun
  split
  · exact roundWithAccuracy_ne_nan _ _ _ _
  · exact roundWithAccuracy_ne_nan _ _ _ _

theorem float_ofScientific_ne_nan (m : Nat) (s : Bool) (e : Nat) :
    (Float.ofScientific m s e).toModel.unpack ≠ .notANumber := by
  unfold Float.ofScientific
  split
  · next hfast =>
    have hten := powerOfTen_unpack (lt_powersOfTen_size hfast.2)
    dsimp only
    split
    · refine unpack_pack_ne_nan (u := UnpackedFloat.div .binary64 _ (Float.Model.unpack _)) ?_
      rw [hten]
      exact div_ne_nan (natural_toFloat_ne_nan m) _
    · refine unpack_pack_ne_nan (u := UnpackedFloat.mul .binary64 _ (Float.Model.unpack _)) ?_
      rw [hten]
      exact mul_ne_nan (natural_toFloat_ne_nan m) _
  · exact unpack_pack_ne_nan (ofScientific_ne_nan _ _)

/-- No decimal is read as NaN. -/
theorem toNumber_ne_nan (d : Decimal) : d.toNumber.toModel.unpack ≠ .notANumber := by
  unfold toNumber
  split <;> exact float_ofScientific_ne_nan _ _ _

end Decimal

end Calculator
