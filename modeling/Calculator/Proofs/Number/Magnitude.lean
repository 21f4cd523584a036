import Calculator.Number.Arithmetic
import Calculator.Proofs.Number.Natural

/-
  Exact values of numbers.  A finite number has a sign and a magnitude (`Number.Is`), and no other
  number has the same two (`Is.unique`).  The magnitudes of doubles are zero and the values of normal
  pairs (`Exact`); a power of two that is in range, taken fewer than `2 ^ 53` times, is always one
  (`exact_of_bits`).  A difference that is such a magnitude is computed without rounding (`Is.sub`),
  and numbers without a sign are in the order of their magnitudes (`Is.le_iff`).
-/

namespace Calculator

open Float.Model Float.Model.UnpackedFloat Double

namespace Binary

/-- A value, with its sign. -/
def value (b : Binary) : ℚ := if b.negative then -b.magnitude else b.magnitude

theorem magnitude_nonneg (b : Binary) : 0 ≤ b.magnitude := by
  unfold magnitude
  positivity

/-- The integer part is that of the magnitude. -/
theorem wholePart_eq (b : Binary) : b.wholePart = ⌊b.magnitude⌋₊ := by
  rw [magnitude_eq, Nat.floor_div_eq_div]
  rfl

end Binary

namespace Double

/-! ## Magnitudes of doubles -/

/-- What is the magnitude of a finite double. -/
def Exact (q : ℚ) : Prop := q = 0 ∨ ∃ m e, Normal m e ∧ q = m * 2 ^ e

/-- At most 53 bits at an exponent in range are the magnitude of a double. -/
theorem exact_of_bits {a : Nat} (h : a < 2 ^ 53) {k : Int} (hlow : -1074 ≤ k) (hhigh : k ≤ 971) :
    Exact (a * 2 ^ k) := by
  rcases Nat.eq_zero_or_pos a with rfl | hpos
  · exact .inl (by rw [Nat.cast_zero, zero_mul])
  obtain ⟨hfull, hbits⟩ := full_bounds hpos h
  -- The significand is shifted to 53 bits, or as far as the least exponent allows.
  generalize hi : min (52 - a.log2) (k + 1074).toNat = i
  refine .inr ⟨a * 2 ^ i, k - i, ⟨by positivity, ?_, by omega, ?_, by omega⟩,
    (value_shift a i k).symm⟩
  · have hle : 2 ^ i ≤ 2 ^ (52 - a.log2) := Nat.pow_le_pow_right (by decide) (by omega)
    exact Nat.lt_of_le_of_lt (Nat.mul_le_mul_left a hle) hbits
  · rcases Nat.le_total (52 - a.log2) (k + 1074).toNat with hle | hle
    · left
      rwa [← hi, Nat.min_eq_left hle]
    · right
      omega

theorem exact_natural {n : Nat} (h : n < 2 ^ 53) : Exact n := by
  have hexact := exact_of_bits h (k := 0) (by decide) (by decide)
  rwa [zpow_zero, mul_one] at hexact

/-- A magnitude is a whole number, or below `2 ^ 52` and then a multiple of a small power of two. -/
theorem Exact.cases {q : ℚ} (h : Exact q) : (∃ n : Nat, q = n) ∨
    ∃ m k : Nat, m < 2 ^ 53 ∧ 0 < k ∧ k ≤ 1074 ∧ q = m / (2 ^ k : Nat) := by
  rcases h with rfl | ⟨m, e, hn, rfl⟩
  · exact .inl ⟨0, Nat.cast_zero.symm⟩
  rcases Int.lt_or_le e 0 with he | he
  · refine .inr ⟨m, (-e).toNat, hn.bits, by omega, by have := hn.least; omega, ?_⟩
    have hcast : ((-e).toNat : Int) = -e := by omega
    push_cast
    rw [← zpow_natCast, hcast, zpow_neg, div_inv_eq_mul]
  · refine .inl ⟨m * 2 ^ e.toNat, ?_⟩
    push_cast
    rw [← zpow_natCast, Int.toNat_of_nonneg he]

/-- The double nearest to a magnitude of a double has that magnitude. -/
theorem Exact.rounded {q : ℚ} (h : Exact q) (s : Sign) :
    rounded s q = .zero s ∧ q = 0 ∨
      ∃ m e, ∃ hn : Normal m e, rounded s q = .finite s m e hn.pos ∧ q = m * 2 ^ e := by
  rcases h with rfl | ⟨m, e, hn, rfl⟩
  · exact .inl ⟨rounded_zero s, rfl⟩
  · exact .inr ⟨m, e, hn, rounded_normal s hn, rfl⟩

theorem Exact.unpack_pack {q : ℚ} (h : Exact q) (s : Sign) :
    (Float.Model.pack (Double.rounded s q)).unpack = Double.rounded s q := by
  rcases h.rounded s with ⟨hzero, -⟩ | ⟨m, e, hn, hfinite, -⟩
  · rw [hzero]
    cases s <;> rfl
  · rw [hfinite]
    exact Double.unpack_pack s hn

theorem neg_rounded (s : Sign) (q : ℚ) : (rounded s q).neg = rounded (-s) q := by
  unfold rounded
  dsimp only
  split <;> rfl

theorem abs_rounded (s : Sign) (q : ℚ) : (rounded s q).abs = rounded .positive q := by
  unfold rounded
  dsimp only
  split <;> rfl

end Double

namespace Number

/-! ## Numbers by sign and magnitude -/

/-- A number is finite, and has this sign and exactly this magnitude. -/
def Is (x : Number) (negative : Bool) (q : ℚ) : Prop :=
  ∃ b, view x = .finite b ∧ b.negative = negative ∧ b.magnitude = q

/-- The sign of a number that is negative or not. -/
def sign (negative : Bool) : Sign := if negative then .negative else .positive

theorem sign_beq (s : Sign) : sign (s == .negative) = s := by
  cases s <;> rfl

theorem beq_sign (negative : Bool) : (sign negative == .negative) = negative := by
  cases negative <;> rfl

theorem sign_not (negative : Bool) : sign (!negative) = -sign negative := by
  cases negative <;> rfl

variable {x y : Number} {negative : Bool} {p q : ℚ}

/-- A number of a sign and a magnitude is the double nearest to that magnitude, with that sign. -/
theorem is_iff : x.Is negative q ↔ Exact q ∧ x.toModel.unpack = rounded (sign negative) q := by
  constructor
  · rintro ⟨b, hview, rfl, rfl⟩
    unfold view at hview
    cases hx : x.toModel.unpack with
    | notANumber => simp [hx] at hview
    | infinity s => simp [hx] at hview
    | zero s =>
      rw [hx] at hview
      obtain rfl := View.finite.inj hview
      have hzero : Binary.magnitude ⟨s == .negative, 0, 0⟩ = 0 := by simp [Binary.magnitude]
      rw [hzero, rounded_zero, sign_beq]
      exact ⟨.inl rfl, rfl⟩
    | finite s m e hm =>
      rw [hx] at hview
      obtain rfl := View.finite.inj hview
      have hn : Normal m e := normal_of_unpack hx
      rw [Binary.magnitude, rounded_normal _ hn, sign_beq]
      exact ⟨.inr ⟨m, e, hn, rfl⟩, rfl⟩
  · rintro ⟨hexact, hx⟩
    unfold Is view
    rcases hexact.rounded (sign negative) with ⟨hzero, rfl⟩ | ⟨m, e, hn, hfinite, rfl⟩
    · rw [hx, hzero]
      exact ⟨_, rfl, beq_sign negative, by simp [Binary.magnitude]⟩
    · rw [hx, hfinite]
      exact ⟨_, rfl, beq_sign negative, rfl⟩

theorem is_pack (h : Exact q) (negative : Bool) :
    Is (.ofModel (.pack (rounded (sign negative) q))) negative q :=
  is_iff.2 ⟨h, h.unpack_pack _⟩

theorem Is.exact (h : x.Is negative q) : Exact q := (is_iff.1 h).1

theorem Is.nonneg (h : x.Is negative q) : 0 ≤ q := by
  obtain ⟨b, -, -, rfl⟩ := h
  exact b.magnitude_nonneg

/-- Sign and magnitude tell a number. -/
theorem Is.unique (hx : x.Is negative q) (hy : y.Is negative q) : x = y :=
  unpack_inj ((is_iff.1 hx).2.trans (is_iff.1 hy).2.symm)

/-- A natural number with a sign, where it is the magnitude of a double, is converted exactly. -/
theorem is_toNumber {n : Nat} (h : Exact n) (negative : Bool) :
    (Binary.toNumber ⟨negative, n, 0⟩).Is negative n := by
  have hround : UnpackedFloat.round .binary64 (sign negative) n 0 = rounded (sign negative) n := by
    rcases Nat.eq_zero_or_pos n with rfl | hpos
    · rw [Nat.cast_zero, rounded_zero]
      cases negative <;> rfl
    · rw [round_eq _ hpos, zpow_zero, mul_one]
  have hpack := is_pack h negative
  rwa [← hround] at hpack

theorem Is.neg (h : x.Is negative q) : (-x).Is (!negative) q := by
  obtain ⟨hexact, hx⟩ := is_iff.1 h
  have hpack := is_pack hexact (!negative)
  rwa [sign_not, ← neg_rounded, ← hx] at hpack

theorem Is.abs (h : x.Is negative q) : Is x.abs false q := by
  obtain ⟨hexact, hx⟩ := is_iff.1 h
  have hpack := is_pack hexact false
  rwa [sign, if_neg Bool.false_ne_true, ← abs_rounded (sign negative), ← hx] at hpack

/-- What a number of a sign and a magnitude is unpacked to. -/
theorem Is.cases (h : x.Is negative q) : x.toModel.unpack = .zero (sign negative) ∧ q = 0 ∨
    ∃ m e, ∃ hn : Normal m e,
      x.toModel.unpack = .finite (sign negative) m e hn.pos ∧ q = m * 2 ^ e := by
  obtain ⟨hexact, hx⟩ := is_iff.1 h
  rw [hx]
  exact hexact.rounded _

/-- A difference of numbers without sign that is itself the magnitude of a double is exact. -/
theorem Is.sub (hx : x.Is false p) (hy : y.Is false q) (hle : q ≤ p) (h : Exact (p - q)) :
    (x - y).Is false (p - q) := by
  have hsub : UnpackedFloat.sub .binary64 x.toModel.unpack y.toModel.unpack =
      rounded .positive (p - q) := by
    obtain ⟨hxu, rfl⟩ | ⟨m₁, e₁, hn₁, hxu, rfl⟩ := hx.cases <;>
      obtain ⟨hyu, rfl⟩ | ⟨m₂, e₂, hn₂, hyu, rfl⟩ := hy.cases <;> rw [hxu, hyu]
    · rw [sub_zero, rounded_zero]
      rfl
    · have hpos := hn₂.pos
      exact absurd hle (not_le_of_gt (by positivity))
    · rw [sub_zero, rounded_normal .positive hn₁]
      rfl
    · exact sub_eq hn₁.pos hn₂.pos hle
  have hpack := is_pack h false
  rwa [sign, if_neg Bool.false_ne_true, ← hsub] at hpack

/-- Numbers without sign are in the order of their magnitudes. -/
theorem Is.le_iff (hx : x.Is false p) (hy : y.Is false q) : x ≤ y ↔ p ≤ q := by
  change decide ((UnpackedFloat.compare x.toModel.unpack y.toModel.unpack).any (·.isLE) = true) =
    true ↔ _
  rw [decide_eq_true_eq]
  obtain ⟨hxu, rfl⟩ | ⟨m₁, e₁, hn₁, hxu, rfl⟩ := hx.cases <;>
    obtain ⟨hyu, rfl⟩ | ⟨m₂, e₂, hn₂, hyu, rfl⟩ := hy.cases <;> rw [hxu, hyu]
  · exact iff_of_true rfl le_rfl
  · exact iff_of_true rfl (by positivity)
  · have hpos := hn₁.pos
    exact iff_of_false (fun h => Bool.false_ne_true h) (not_le_of_gt (by positivity))
  · rw [← not_lt, value_lt_iff hn₂ hn₁]
    change ((compare e₁ e₂).then (compare m₁ m₂)).isLE = true ↔ _
    rw [Ordering.isLE_iff_ne_gt, Ordering.then_eq_gt, compare_gt_iff_gt, compare_gt_iff_gt,
      compare_eq_iff_eq]
    omega

end Number

end Calculator
