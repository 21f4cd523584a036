import Calculator.Proofs.Number.Magnitude

/-
  Rounding to the nearest integer.  The integer part of a double is a double, and so are what the
  double has above it and, where that is not nothing, the next integer: a double that is no integer is
  below `2 ^ 52` (`Exact.floor`, `Exact.sub_floor`, `Exact.floor_add_one`).  So no step of rounding
  is inexact, and the result is the nearest integer, half a unit going away from zero, with the sign
  of the number (`round_exact`).
-/

namespace Calculator

open Double

/-! ## The nearest integer -/

/-- No integer is nearer to a value, and any other that is as near has a smaller magnitude. -/
def IsNearest (v : ℚ) (n : ℤ) : Prop :=
  ∀ k : ℤ, k ≠ n → |v - n| < |v - k| ∨ |v - n| = |v - k| ∧ |k| < |n|

theorem IsNearest.neg {v : ℚ} {n : ℤ} (h : IsNearest v n) : IsNearest (-v) (-n) := by
  have hdistance (k : ℤ) : |-v - k| = |v - (-k : ℤ)| := by
    rw [← abs_neg]
    congr 1
    push_cast
    ring
  intro k hk
  have hnearest := h (-k) (by omega)
  rwa [hdistance, neg_neg, hdistance k, abs_neg n, ← abs_neg k]

namespace Double

/-- The natural number nearest to a magnitude; half a unit counts as a whole one. -/
def nearest (q : ℚ) : ℕ := ⌊q + 1 / 2⌋₊

theorem nearest_natural (n : ℕ) : nearest n = n := by
  rw [nearest, Nat.floor_eq_iff (by positivity)]
  constructor <;> linarith

variable {q : ℚ}

theorem nearest_bounds (hq : 0 ≤ q) : (nearest q : ℚ) - 1 / 2 ≤ q ∧ q < nearest q + 1 / 2 := by
  have hlow := Nat.floor_le (show 0 ≤ q + 1 / 2 by linarith)
  have hhigh := Nat.lt_floor_add_one (q + 1 / 2)
  rw [nearest]
  constructor <;> linarith

theorem isNearest_nearest (hq : 0 ≤ q) : IsNearest q (nearest q) := by
  obtain ⟨hlow, hhigh⟩ := nearest_bounds hq
  intro k hk
  generalize nearest q = n at *
  rw [Int.cast_natCast]
  have hdistance : |q - n| ≤ 1 / 2 := by
    rw [abs_le]
    constructor <;> linarith
  rcases Int.lt_or_gt_of_ne hk with hlt | hgt
  · -- Below, only the next integer can be as near, and `n` is positive then.
    have hk' : (k : ℚ) ≤ n - 1 := by exact_mod_cast Int.le_sub_one_of_lt hlt
    have hfar : q - k ≤ |q - k| := le_abs_self _
    rcases (show |q - n| ≤ |q - k| by linarith).lt_or_eq with hnearer | hequal
    · exact .inl hnearer
    · refine .inr ⟨hequal, ?_⟩
      have hnext : (k : ℚ) = n - 1 := by linarith
      have hk'' : k = n - 1 := by exact_mod_cast hnext
      have hpos : (0 : ℚ) < n := by linarith
      have hpos' : 0 < n := by exact_mod_cast hpos
      rw [hk'', Nat.abs_cast, abs_of_nonneg] <;> omega
  · left
    have hk' : (n : ℚ) + 1 ≤ k := by exact_mod_cast hgt
    have hfar : -(q - k) ≤ |q - k| := neg_le_abs _
    linarith

theorem nearest_eq (hq : 0 ≤ q) :
    nearest q = if 1 / 2 ≤ q - ⌊q⌋₊ then ⌊q⌋₊ + 1 else ⌊q⌋₊ := by
  have hlow := Nat.floor_le hq
  have hhigh := Nat.lt_floor_add_one q
  rw [nearest, Nat.floor_eq_iff (by linarith)]
  split
  · push_cast
    constructor <;> linarith
  · constructor <;> linarith

/-! ## Steps of rounding -/

theorem Exact.floor (h : Exact q) : Exact ⌊q⌋₊ := by
  rcases h.cases with ⟨n, rfl⟩ | ⟨m, k, hm, hk, hk', rfl⟩
  · rwa [Nat.floor_natCast]
  · rw [Nat.floor_div_eq_div]
    exact exact_natural (Nat.lt_of_le_of_lt (Nat.div_le_self m _) hm)

/-- What is above the integer part has the bits of the number that are worth less than one. -/
theorem Exact.sub_floor (h : Exact q) : Exact (q - ⌊q⌋₊) := by
  rcases h.cases with ⟨n, rfl⟩ | ⟨m, k, hm, hk, hk', rfl⟩
  · exact .inl (by rw [Nat.floor_natCast, sub_self])
  · have hdiv : ((2 ^ k : Nat) : ℚ) * (m / 2 ^ k : Nat) + (m % 2 ^ k : Nat) = m := by
      exact_mod_cast Nat.div_add_mod m (2 ^ k)
    have hrest : (m : ℚ) / (2 ^ k : Nat) - (m / 2 ^ k : Nat) = (m % 2 ^ k : Nat) * 2 ^ (-k : ℤ) := by
      rw [← hdiv, zpow_neg, zpow_natCast]
      push_cast
      field_simp
      ring
    rw [Nat.floor_div_eq_div, hrest]
    exact exact_of_bits (Nat.lt_of_le_of_lt (Nat.mod_le m _) hm) (by omega) (by omega)

/-- Only numbers below `2 ^ 52` have anything above their integer part. -/
theorem Exact.floor_add_one (h : Exact q) (hne : (⌊q⌋₊ : ℚ) ≠ q) : Exact (⌊q⌋₊ + 1 : ℕ) := by
  rcases h.cases with ⟨n, rfl⟩ | ⟨m, k, hm, hk, -, rfl⟩
  · exact absurd (by rw [Nat.floor_natCast]) hne
  · have hhalf : m / 2 ^ k ≤ m / 2 ^ 1 :=
      Nat.div_le_div_left (Nat.pow_le_pow_right (by decide) hk) (by decide)
    rw [Nat.floor_div_eq_div]
    exact exact_natural (by omega)

end Double

namespace Number

variable {x : Number} {negative : Bool} {q : ℚ}

theorem Is.above (h : x.Is negative q) : (x.above ⌊q⌋₊).Is false (q - ⌊q⌋₊) :=
  h.abs.sub (is_toNumber h.exact.floor false) (Nat.floor_le h.nonneg) h.exact.sub_floor

theorem half_is : Is 0.5 false (1 / 2) := by
  refine ⟨⟨false, 2 ^ 52, -53⟩, by decide, rfl, ?_⟩
  norm_num [Binary.magnitude]

/-- The test of rounding is exact. -/
theorem Is.half_le_above (h : x.Is negative q) : 0.5 ≤ x.above ⌊q⌋₊ ↔ 1 / 2 ≤ q - ⌊q⌋₊ :=
  half_is.le_iff h.above

/-- The next integer, where half a unit or more is above the integer part, is converted exactly. -/
theorem Is.next (h : x.Is negative q) (hhalf : 1 / 2 ≤ q - ⌊q⌋₊) (negative : Bool) :
    (Binary.toNumber ⟨negative, ⌊q⌋₊ + 1, 0⟩).Is negative (⌊q⌋₊ + 1 : ℕ) :=
  is_toNumber (h.exact.floor_add_one fun heq => by linarith) negative

/-- Rounding keeps the sign and gives the nearest natural number as the magnitude. -/
theorem Is.round (h : x.Is negative q) : (round x).Is negative (nearest q) := by
  have hround : Number.round x = Binary.toNumber
      ⟨negative, if 0.5 ≤ x.above ⌊q⌋₊ then ⌊q⌋₊ + 1 else ⌊q⌋₊, 0⟩ := by
    obtain ⟨b, hview, rfl, rfl⟩ := h
    rw [Number.round, hview, ← b.wholePart_eq]
  rw [hround, nearest_eq h.nonneg]
  simp only [h.half_le_above]
  split
  · next hhalf => exact h.next hhalf negative
  · exact is_toNumber h.exact.floor negative

/-- What rounding does to a finite number of an exact value, step by step and as a whole. -/
structure RoundsExactly (x : Number) (b : Binary) : Prop where
  /-- The integer part is that of the magnitude, and converted exactly. -/
  whole : (b.wholePart : ℤ) = ⌊b.magnitude⌋ ∧
    Is (Binary.toNumber ⟨false, b.wholePart, 0⟩) false b.wholePart
  /-- The subtraction is exact. -/
  above : (x.above b.wholePart).Is false (b.magnitude - b.wholePart)
  /-- The comparison tells whether half a unit or more is above the integer part. -/
  half : 0.5 ≤ x.above b.wholePart ↔ 1 / 2 ≤ b.magnitude - b.wholePart
  /-- The next integer, where it is taken, is converted exactly. -/
  next : 0.5 ≤ x.above b.wholePart →
    Is (Binary.toNumber ⟨false, b.wholePart + 1, 0⟩) false (b.wholePart + 1 : ℕ)
  /-- The result is exactly the nearest integer, with the sign of the number. -/
  nearest : ∃ (b' : Binary) (n : ℤ), view (round x) = .finite b' ∧ b'.negative = b.negative ∧
    b'.value = n ∧ IsNearest b.value n
  /-- Rounding is odd. -/
  neg : round (-x) = -round x
  /-- Rounding again changes nothing. -/
  again : round (round x) = round x

/-- Rounding a finite number is exact at each step: it gives the integer nearest to the value, of two
equally near ones the one farther from zero. -/
theorem round_exact {x : Number} {b : Binary} (h : view x = .finite b) : RoundsExactly x b := by
  have hx : x.Is b.negative b.magnitude := ⟨b, h, rfl, rfl⟩
  have hround := hx.round
  have hwhole := b.wholePart_eq
  exact {
    whole := by
      rw [hwhole]
      exact ⟨Int.natCast_floor_eq_floor hx.nonneg, is_toNumber hx.exact.floor false⟩
    above := by
      rw [hwhole]
      exact hx.above
    half := by
      rw [hwhole]
      exact hx.half_le_above
    next := by
      rw [hwhole]
      exact fun hhalf => hx.next (hx.half_le_above.1 hhalf) false
    nearest := by
      obtain ⟨b', hview, hsign, hmagnitude⟩ := hround
      have hnearest := isNearest_nearest hx.nonneg
      refine ⟨b', if b.negative then -(Double.nearest b.magnitude : ℤ) else
        Double.nearest b.magnitude, hview, hsign, ?_, ?_⟩
      · rw [Binary.value, hsign, hmagnitude]
        split
        · rw [Int.cast_neg, Int.cast_natCast]
        · rw [Int.cast_natCast]
      · rw [Binary.value]
        split
        · exact hnearest.neg
        · exact hnearest
    neg := hx.neg.round.unique hround.neg
    again := by
      have htwice := hround.round
      rw [nearest_natural] at htwice
      exact htwice.unique hround }

/-- The greatest number below a half has more than 52 bits after the point, and is rounded to zero. -/
theorem round_exact_below_half :
    view (-0.49999999999999994) = .finite ⟨true, 2 ^ 53 - 1, -54⟩ ∧
      round (-0.49999999999999994) = -0.0 ∧
        RoundsExactly (-0.49999999999999994) ⟨true, 2 ^ 53 - 1, -54⟩ := by
  have hview : view (-0.49999999999999994) = .finite ⟨true, 2 ^ 53 - 1, -54⟩ := by
    decide +kernel
  exact ⟨hview, by decide +kernel, round_exact hview⟩

/-- Half a unit below `2 ^ 52` goes up to it. -/
example : round 4503599627370495.5 = 4503599627370496 := by decide +kernel

end Number

end Calculator
