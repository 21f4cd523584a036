import Calculator.Number.Layout
import Calculator.Number.Numeral
import Calculator.Proofs.Number.Shortest
import Mathlib.Data.List.TakeWhile

/-
  Numbers read back.  `Number.plain` writes a number as a numeral of the language, and reading that
  numeral gives the number again (`plain_sound`), a zero losing its sign: a whole number is written
  with all its digits, any other with digits that were chosen because they read back, and an
  infinity as a numeral that overflows.
-/

namespace Calculator

open Float.Model Float.Model.UnpackedFloat Double

/-! ## Numerals -/

namespace Numeral

/-- What is written for a magnitude: digits, and perhaps a point and digits after it. -/
def IsMagnitude (cs : List Char) : Prop :=
  ∃ whole fraction : List Char, whole ≠ [] ∧ (∀ c ∈ whole, c.isDigit) ∧
    (∀ c ∈ fraction, c.isDigit) ∧ (cs = whole ∨ cs = whole ++ '.' :: fraction)

theorem ne_point_of_isDigit {c : Char} (h : c.isDigit) : (c != '.') = true := by
  rw [bne_iff_ne]
  rintro rfl
  exact absurd h (by decide)

theorem decimal_whole {whole : List Char} (h : ∀ c ∈ whole, c.isDigit) :
    decimal whole = ⟨Nat.ofDigitChars 10 whole 0, 0⟩ := by
  have hall : ∀ c ∈ whole, (c != '.') = true := fun c hc => ne_point_of_isDigit (h c hc)
  have htake : whole.takeWhile (· != '.') = whole := by
    exact List.takeWhile_eq_self_iff.2 hall
  have hdrop : whole.dropWhile (· != '.') = [] := by
    exact List.dropWhile_eq_nil_iff.2 hall
  simp [decimal, htake, hdrop]

theorem decimal_point {whole : List Char} (h : ∀ c ∈ whole, c.isDigit) (fraction : List Char) :
    decimal (whole ++ '.' :: fraction) =
      ⟨Nat.ofDigitChars 10 (whole ++ fraction) 0, -fraction.length⟩ := by
  have hall : ∀ c ∈ whole, (c != '.') = true := fun c hc => ne_point_of_isDigit (h c hc)
  simp [decimal, List.takeWhile_append_of_pos hall, List.dropWhile_append_of_pos hall]

theorem isDigit_of_mem_toDigits {n : Nat} {c : Char} (h : c ∈ Nat.toDigits 10 n) : c.isDigit :=
  Nat.isDigit_of_mem_toDigits (by decide) (by decide) h

theorem isMagnitude_toDigits (n : Nat) : IsMagnitude (Nat.toDigits 10 n) :=
  ⟨_, [], Nat.toDigits_ne_nil, fun _ => isDigit_of_mem_toDigits, by simp, .inl rfl⟩

theorem decimal_toDigits (n : Nat) : decimal (Nat.toDigits 10 n) = ⟨n, 0⟩ := by
  rw [decimal_whole fun _ => isDigit_of_mem_toDigits, Nat.ofDigitChars_ten_toDigits]

theorem isDigit_of_mem_replicate {n : Nat} {c : Char} (h : c ∈ List.replicate n '0') :
    c.isDigit := by
  rw [List.eq_of_mem_replicate h]
  rfl

/-- A magnitude is not read as a negative number. -/
theorem read_magnitude {cs : List Char} (h : IsMagnitude cs) : read cs = (decimal cs).toNumber := by
  obtain ⟨whole, fraction, hne, hwhole, -, hcs⟩ := h
  obtain ⟨c, rest, rfl⟩ := List.exists_cons_of_ne_nil hne
  have hc : c.isDigit := hwhole c (by simp)
  rcases hcs with rfl | rfl <;> simp [read, hc]

theorem read_negative (cs : List Char) : read ('-' :: cs) = -(decimal cs).toNumber := by
  simp [read]

/-- No numeral is read as NaN. -/
theorem read_isNumber (cs : List Char) : (read cs).IsNumber := by
  cases cs with
  | nil => exact fun h => by rw [read, Number.zero_unpack] at h; cases h
  | cons c rest =>
    rw [read]
    split
    · exact Decimal.toNumber_ne_nan _
    · exact unpack_pack_ne_nan (neg_ne_nan (Decimal.toNumber_ne_nan _))

end Numeral

/-! ## Positional text -/

namespace Layout

section Positional

variable {digits : List Char} (hdigits : ∀ c ∈ digits, c.isDigit)
include hdigits

/-- Zeros between the point and the digits. -/
theorem point_first (zeros : Nat) :
    Numeral.IsMagnitude ('0' :: '.' :: (List.replicate zeros '0' ++ digits)) ∧
      Numeral.decimal ('0' :: '.' :: (List.replicate zeros '0' ++ digits)) =
        ⟨Nat.ofDigitChars 10 digits 0, -(zeros + digits.length)⟩ := by
  have hzero : ∀ c ∈ ['0'], c.isDigit := by simp
  have hfraction : ∀ c ∈ List.replicate zeros '0' ++ digits, c.isDigit :=
    List.forall_mem_append.2 ⟨fun _ hc => Numeral.isDigit_of_mem_replicate hc, hdigits⟩
  have hread : Nat.ofDigitChars 10 (['0'] ++ (List.replicate zeros '0' ++ digits)) 0 =
      Nat.ofDigitChars 10 digits 0 := by
    rw [Nat.ofDigitChars_append, Nat.ofDigitChars_append, Nat.ofDigitChars_replicate_zero]
    simp [Nat.ofDigitChars_cons]
  refine ⟨⟨['0'], _, by simp, hzero, hfraction, .inr rfl⟩, ?_⟩
  have hdecimal := Numeral.decimal_point hzero (List.replicate zeros '0' ++ digits)
  rw [hread, List.length_append, List.length_replicate] at hdecimal
  push_cast at hdecimal
  exact hdecimal

/-- Zeros between the digits and the point, which is not written. -/
theorem point_last (hne : digits ≠ []) (zeros : Nat) :
    Numeral.IsMagnitude (digits ++ List.replicate zeros '0') ∧
      Numeral.decimal (digits ++ List.replicate zeros '0') =
        ⟨Nat.ofDigitChars 10 digits 0 * 10 ^ zeros, 0⟩ := by
  have hwhole : ∀ c ∈ digits ++ List.replicate zeros '0', c.isDigit :=
    List.forall_mem_append.2 ⟨hdigits, fun _ hc => Numeral.isDigit_of_mem_replicate hc⟩
  refine ⟨⟨_, [], by simp [hne], hwhole, by simp, .inl rfl⟩, ?_⟩
  rw [Numeral.decimal_whole hwhole, Nat.ofDigitChars_append, Nat.ofDigitChars_replicate_zero,
    Nat.mul_comm]

/-- The point among the digits. -/
theorem point_within {point : Nat} (hpos : 0 < point) (hlt : point < digits.length) :
    Numeral.IsMagnitude (digits.take point ++ '.' :: digits.drop point) ∧
      Numeral.decimal (digits.take point ++ '.' :: digits.drop point) =
        ⟨Nat.ofDigitChars 10 digits 0, point - digits.length⟩ := by
  have htake : ∀ c ∈ digits.take point, c.isDigit :=
    fun c hc => hdigits c (List.mem_of_mem_take hc)
  have hdrop : ∀ c ∈ digits.drop point, c.isDigit :=
    fun c hc => hdigits c (List.mem_of_mem_drop hc)
  have hne : digits.take point ≠ [] := by
    apply List.ne_nil_of_length_pos
    rw [List.length_take]
    omega
  refine ⟨⟨_, _, hne, htake, hdrop, .inr rfl⟩, ?_⟩
  rw [Numeral.decimal_point htake, List.take_append_drop, List.length_drop]
  congr 1
  omega

/-- Digits written positionally are a magnitude, and are read as the digits at their place. -/
theorem positional_value (hne : digits ≠ []) (point : Int) :
    Numeral.IsMagnitude (positional digits point) ∧
      (Numeral.decimal (positional digits point)).exponent = min (point - digits.length) 0 ∧
      (Numeral.decimal (positional digits point)).value =
        Nat.ofDigitChars 10 digits 0 * 10 ^ (point - digits.length) := by
  unfold positional
  split
  · next hpoint =>
    obtain ⟨hshape, hdecimal⟩ := point_first hdigits (-point).toNat
    have hexponent : -((-point).toNat + digits.length : Int) = point - digits.length := by omega
    have hmin : min (point - digits.length : Int) 0 = point - digits.length := by omega
    rw [List.cons_append, List.cons_append, hdecimal, hexponent]
    exact ⟨hshape, hmin.symm, rfl⟩
  split
  · next hpoint hlength =>
    obtain ⟨hshape, hdecimal⟩ := point_last hdigits hne (point.toNat - digits.length)
    have hexponent : ((point.toNat - digits.length : Nat) : Int) = point - digits.length := by omega
    have hmin : min (point - digits.length : Int) 0 = 0 := by omega
    rw [hmin, hdecimal, Decimal.value_natural, ← hexponent, zpow_natCast]
    refine ⟨hshape, rfl, ?_⟩
    push_cast
    rfl
  · next hpoint hlength =>
    obtain ⟨hshape, hdecimal⟩ := point_within hdigits (by omega : 0 < point.toNat) (by omega)
    have hexponent : (point.toNat : Int) - digits.length = point - digits.length := by omega
    have hmin : min (point - digits.length : Int) 0 = point - digits.length := by omega
    rw [hdecimal, hexponent]
    exact ⟨hshape, hmin.symm, rfl⟩

end Positional

/-- A decimal written positionally is a magnitude, and is read as the number that it is. -/
theorem positional_sound (d : Decimal) (hlow : -2048 ≤ d.exponent) (hhigh : d.exponent ≤ 2048) :
    Numeral.IsMagnitude (positional (Nat.toDigits 10 d.digits)
        ((Nat.toDigits 10 d.digits).length + d.exponent)) ∧
      (Numeral.decimal (positional (Nat.toDigits 10 d.digits)
        ((Nat.toDigits 10 d.digits).length + d.exponent))).toNumber = d.toNumber := by
  have hdigits : ∀ c ∈ Nat.toDigits 10 d.digits, c.isDigit :=
    fun _ => Numeral.isDigit_of_mem_toDigits
  obtain ⟨hshape, hexponent, hvalue⟩ := positional_value hdigits Nat.toDigits_ne_nil
    ((Nat.toDigits 10 d.digits).length + d.exponent)
  rw [add_sub_cancel_left] at hexponent hvalue
  refine ⟨hshape, Decimal.toNumber_congr (by omega) ⟨hlow, hhigh⟩ ?_⟩
  rw [hvalue, Nat.ofDigitChars_ten_toDigits, Decimal.value]

end Layout

namespace Binary

/-! ## Magnitudes of values -/

/-- The magnitude of a value. -/
def magnitude (b : Binary) : ℚ := b.significand * 2 ^ b.exponent

theorem magnitude_eq (b : Binary) : b.magnitude =
    (b.significand * 2 ^ b.exponent.toNat : Nat) / (2 ^ (-b.exponent).toNat : Nat) := by
  have hexponent : b.exponent = b.exponent.toNat - (-b.exponent).toNat := by omega
  rw [magnitude, hexponent, zpow_sub₀ two_ne_zero, zpow_natCast, zpow_natCast, ← hexponent]
  push_cast
  rw [mul_div_assoc]

end Binary

namespace Number

/-! ## Numbers read back -/

/-- A number, with the sign of a zero dropped. -/
def unsignedZero (x : Number) : Number := if x == 0 then 0 else x

theorem zero_isNumber : (0 : Number).IsNumber := by
  rw [IsNumber, zero_unpack]
  nofun

/-- The numbers equal to zero are the two zeros. -/
theorem beq_zero_iff (x : Number) : (x == 0) = true ↔ ∃ s, x.toModel.unpack = .zero s := by
  rw [beq_iff]
  constructor
  · rintro ⟨-, -, h | ⟨h, -⟩ | ⟨h, -⟩⟩
    · exact ⟨.positive, h.trans zero_unpack⟩
    · exact ⟨.positive, h⟩
    · exact ⟨.negative, h⟩
  · rintro ⟨s, h⟩
    refine ⟨by rw [IsNumber, h]; nofun, zero_isNumber, ?_⟩
    cases s with
    | positive => exact .inl (h.trans zero_unpack.symm)
    | negative => exact .inr (.inr ⟨h, zero_unpack⟩)

theorem unsignedZero_of_ne {x : Number} (h : ∀ s, x.toModel.unpack ≠ .zero s) :
    unsignedZero x = x := by
  refine if_neg fun hx => ?_
  obtain ⟨s, hs⟩ := (beq_zero_iff x).1 hx
  exact h s hs

theorem unsignedZero_of_zero {x : Number} {s : Sign} (h : x.toModel.unpack = .zero s) :
    unsignedZero x = 0 :=
  if_pos ((beq_zero_iff x).2 ⟨s, h⟩)

/-- A number that is not negative, with a sign. -/
def withSign (negative : Bool) (x : Number) : Number := if negative then -x else x

/-- The sign before a magnitude is the sign of the number read. -/
theorem read_signed (negative : Bool) {cs : List Char} (h : Numeral.IsMagnitude cs) :
    Numeral.read (signed negative cs) = withSign negative (Numeral.decimal cs).toNumber := by
  cases negative with
  | false => exact Numeral.read_magnitude h
  | true => exact Numeral.read_negative cs

theorem eq_withSign {x : Number} {s : Sign} {u : Sign → UnpackedFloat}
    (hu : ∀ s, (Float.Model.pack (u s)).unpack = u s) (hneg : (u .positive).neg = u .negative)
    (hx : x.toModel.unpack = u s) : x = withSign (s == .negative) (.ofModel (.pack (u .positive))) := by
  apply unpack_inj
  rw [hx]
  cases s with
  | positive => exact (hu .positive).symm
  | negative =>
    change _ = (Float.Model.pack (Float.Model.unpack (.pack (u .positive))).neg).unpack
    rw [hu, hneg, hu]

/-- A double is its magnitude with its sign. -/
theorem eq_withSign_finite {x : Number} {s : Sign} {m : Nat} {e : Int} (h : Normal m e)
    (hx : x.toModel.unpack = .finite s m e h.pos) :
    x = withSign (s == .negative) (.ofModel (.pack (.finite .positive m e h.pos))) :=
  eq_withSign (u := fun s => .finite s m e h.pos) (unpack_pack · h) rfl hx

theorem eq_withSign_infinity {x : Number} {s : Sign} (hx : x.toModel.unpack = .infinity s) :
    x = withSign (s == .negative) (.ofModel (.pack (.infinity .positive))) :=
  eq_withSign (u := .infinity) (fun s => by cases s <;> rfl) rfl hx

theorem overflowing_isMagnitude : Numeral.IsMagnitude overflowing := by
  refine ⟨overflowing, [], List.cons_ne_nil _ _, ?_, by simp, .inl rfl⟩
  intro c hc
  rcases List.mem_cons.1 hc with rfl | hc
  · rfl
  · exact Numeral.isDigit_of_mem_replicate hc

theorem overflowing_toNumber :
    (Numeral.decimal overflowing).toNumber = .ofModel (.pack (.infinity .positive)) := by
  decide +kernel

theorem wholePart_value {b : Binary} (h : b.isWhole) :
    (b.wholePart : ℚ) = b.significand * 2 ^ b.exponent := by
  unfold Binary.isWhole at h
  rw [Bool.or_eq_true, decide_eq_true_eq, beq_iff_eq] at h
  have hrest : b.significand * 2 ^ b.exponent.toNat % 2 ^ (-b.exponent).toNat = 0 := by
    rcases Int.le_total 0 b.exponent with he | he
    · rw [show (-b.exponent).toNat = 0 by omega, pow_zero, Nat.mod_one]
    · rw [show b.exponent.toNat = 0 by omega, pow_zero, mul_one]
      rcases h with h | h
      · rw [show (-b.exponent).toNat = 0 by omega, pow_zero, Nat.mod_one]
      · exact h
  exact ((cast_div_eq_iff _ (Nat.two_pow_pos _)).2 hrest).trans b.magnitude_eq.symm

/-- A number is written as a magnitude, perhaps after a minus, and is read back; a zero loses its
sign. -/
theorem plain_sound {x : Number} (h : x.IsNumber) :
    ∃ negative cs, plain x = signed negative cs ∧ Numeral.IsMagnitude cs ∧
      Numeral.read (signed negative cs) = unsignedZero x := by
  unfold plain view
  cases hx : x.toModel.unpack with
  | notANumber => exact absurd hx h
  | infinity s =>
    refine ⟨_, _, rfl, overflowing_isMagnitude, ?_⟩
    rw [unsignedZero_of_ne (by simp [hx]), read_signed _ overflowing_isMagnitude,
      overflowing_toNumber]
    exact (eq_withSign_infinity hx).symm
  | zero s =>
    refine ⟨false, ['0'], ?_, ⟨['0'], [], by simp, by simp, by simp, .inl rfl⟩, ?_⟩
    · cases s <;> rfl
    · rw [unsignedZero_of_zero hx]
      decide
  | finite s m e hm =>
    have hn : Normal m e := normal_of_unpack hx
    rw [unsignedZero_of_ne (by simp [hx])]
    dsimp only
    split
    · next hwhole =>
      have hsig : (m != 0) = true := by
        rw [bne_iff_ne]
        omega
      rw [hsig, Bool.and_true]
      refine ⟨_, _, rfl, Numeral.isMagnitude_toDigits _, ?_⟩
      rw [read_signed _ (Numeral.isMagnitude_toDigits _), Numeral.decimal_toDigits,
        Decimal.toNumber_whole hn (wholePart_value hwhole)]
      exact (eq_withSign_finite hn hx).symm
    · obtain ⟨hread, hlow, hhigh⟩ := Binary.shortest_sound (b := ⟨s == .negative, m, e⟩) hn
      obtain ⟨hshape, hdecimal⟩ := Layout.positional_sound _ hlow hhigh
      refine ⟨_, _, rfl, hshape, ?_⟩
      rw [read_signed _ hshape, hdecimal, hread]
      exact (eq_withSign_finite hn hx).symm

/-! ## Zeros -/

/-- The sign of a zero does not count in comparisons. -/
theorem unsignedZero_beq {x : Number} (h : x.IsNumber) : (unsignedZero x == x) = true := by
  unfold unsignedZero
  split
  · next hx =>
    obtain ⟨s, hs⟩ := (beq_zero_iff x).1 hx
    refine beq_iff.2 ⟨zero_isNumber, h, ?_⟩
    cases s with
    | positive => exact .inl (zero_unpack.trans hs.symm)
    | negative => exact .inr (.inl ⟨zero_unpack, hs⟩)
  · exact beq_self h

/-- The zero with a sign. -/
def IsNegativeZero (x : Number) : Prop := x.toModel.unpack = .zero .negative

/-- Only the zero with a sign changes when zeros lose their signs. -/
theorem unsignedZero_eq_self_iff {x : Number} : unsignedZero x = x ↔ ¬ x.IsNegativeZero := by
  by_cases hx : ∃ s, x.toModel.unpack = .zero s
  · obtain ⟨s, hs⟩ := hx
    rw [unsignedZero_of_zero hs, IsNegativeZero, hs]
    cases s with
    | positive => exact iff_of_true (unpack_inj (zero_unpack.trans hs.symm)) (by simp)
    | negative =>
      refine iff_of_false (fun heq => ?_) (by simp)
      rw [← heq, zero_unpack] at hs
      cases hs
  · rw [not_exists] at hx
    exact iff_of_true (unsignedZero_of_ne hx) (hx .negative)

theorem plain_of_zero {x : Number} {s : Sign} (h : x.toModel.unpack = .zero s) : plain x = ['0'] := by
  unfold plain view
  rw [h]
  cases s <;> rfl

/-- The sign of a zero is not written. -/
theorem plain_unsignedZero (x : Number) : plain (unsignedZero x) = plain x := by
  unfold unsignedZero
  split
  · next hx =>
    obtain ⟨s, hs⟩ := (beq_zero_iff x).1 hx
    rw [plain_of_zero hs, plain_of_zero zero_unpack]
  · rfl

end Number

end Calculator
