import Calculator.Number.Binary
import Mathlib

/-
  Doubles by significand and exponent.  Every finite double other than zero is `m * 2 ^ e` for
  exactly one normal pair: 53 bits, or fewer at the least exponent (`Normal`).  Unpacking gives a
  normal pair back that was packed (`unpack_pack`), and no operation on doubles makes a NaN of finite
  ones.
-/

namespace Calculator.Double

open Float.Model Float.Model.UnpackedFloat

/-- The pairs of significand and exponent that finite doubles other than zero have. -/
structure Normal (m : Nat) (e : Int) : Prop where
  pos : 0 < m
  bits : m < 2 ^ 53
  least : -1074 ≤ e
  full : 2 ^ 52 ≤ m ∨ e = -1074
  most : e ≤ 971

/-! ## Packing and unpacking -/

theorem implicitBit_toNat (m : BitVec 52) : (1#1 ++ m).toNat = 2 ^ 52 + m.toNat := by
  rw [BitVec.toNat_append, ← Nat.shiftLeft_add_eq_or_of_lt m.isLt]
  rfl

/-- The significand field and the exponent field of a normal pair. -/
def significandField (m : Nat) : Nat := if 2 ^ 52 ≤ m then m - 2 ^ 52 else m

def exponentField (m : Nat) (e : Int) : Nat := if 2 ^ 52 ≤ m then (e + 1075).toNat else 0

theorem log2_of_full {m : Nat} (h : m < 2 ^ 53) (hm : 2 ^ 52 ≤ m) : m.log2 = 52 :=
  (Nat.log2_eq_iff (by omega)).2 ⟨hm, h⟩

theorem log2_of_short {m : Nat} (h : m < 2 ^ 52) : m.log2 < 52 := by
  rcases Nat.eq_zero_or_pos m with rfl | hm
  · decide
  · exact (Nat.log2_lt (by omega)).2 h

theorem pack_normal (s : Sign) {m : Nat} {e : Int} (h : Normal m e) :
    UnpackedFloat.pack Format.binary64 (.finite s m e h.pos) =
      packComponents Format.binary64 s (BitVec.ofNat 11 (exponentField m e))
        (BitVec.ofNat 52 (significandField m)) := by
  obtain ⟨_, hbits, hleast, hfull, hmost⟩ := h
  have hbias : (Format.binary64.exponentBias : Int) = 1023 := rfl
  have hwidth : (Format.binary64.mantissaBitsWithoutImplicit : Int) = 52 := rfl
  have hfits : ¬ 2 ^ Format.binary64.exponentBits ≤
      (e + Format.binary64.exponentBias + Format.binary64.mantissaBitsWithoutImplicit).toNat + 1 := by
    rw [hbias, hwidth, show 2 ^ Format.binary64.exponentBits = 2048 from rfl]
    omega
  simp only [UnpackedFloat.pack, if_neg hfits, exponentField, significandField]
  by_cases hm : 2 ^ 52 ≤ m
  · have hlog : m.log2 + 1 = Format.binary64.mantissaBits := by rw [log2_of_full hbits hm]; rfl
    have hfield : BitVec.ofNat 52 m = BitVec.ofNat 52 (m - 2 ^ 52) := by
      apply BitVec.eq_of_toNat_eq
      simp only [BitVec.toNat_ofNat]
      omega
    rw [if_pos hlog, if_pos hm, if_pos hm, hbias, hwidth]
    rw [show e + 1023 + 52 = e + 1075 by omega]
    exact congrArg _ hfield
  · have hlog : ¬ m.log2 + 1 = Format.binary64.mantissaBits := by
      have := log2_of_short (m := m) (by omega)
      rw [show Format.binary64.mantissaBits = 53 from rfl]
      omega
    rw [if_neg hlog, if_neg hm, if_neg hm]

/-- Unpacking gives a normal pair back. -/
theorem unpack_pack (s : Sign) {m : Nat} {e : Int} (h : Normal m e) :
    (Float.Model.pack (.finite s m e h.pos)).unpack = .finite s m e h.pos := by
  change UnpackedFloat.unpack _ (UnpackedFloat.pack _ _) = _
  rw [pack_normal s h]
  obtain ⟨hpos, hbits, hleast, hfull, hmost⟩ := h
  simp only [UnpackedFloat.unpack, unpackExponent_packComponents, unpackMantissa_packComponents,
    unpackSign_packComponents, Sign.ofBitVec_toBitVec]
  have hones : BitVec.ofNat 11 (exponentField m e) ≠ -1#11 := by
    intro heq
    have := congrArg BitVec.toNat heq
    simp [exponentField] at this
    split at this <;> omega
  rw [if_neg hones]
  by_cases hm : 2 ^ 52 ≤ m
  · have hexp : (BitVec.ofNat 11 (exponentField m e)).toNat = (e + 1075).toNat := by
      rw [exponentField, if_pos hm, BitVec.toNat_ofNat]
      omega
    have hzero : BitVec.ofNat 11 (exponentField m e) ≠ 0#11 := by
      intro heq
      rw [heq, BitVec.toNat_zero] at hexp
      omega
    have hsig : (1#1 ++ BitVec.ofNat 52 (significandField m)).toNat = m := by
      rw [implicitBit_toNat, significandField, if_pos hm, BitVec.toNat_ofNat]
      omega
    rw [if_neg hzero]
    simp only [hsig, hexp]
    congr 1
    change ((e + 1075).toNat : Int) - (1023 + 52) = e
    omega
  · have hexp : BitVec.ofNat 11 (exponentField m e) = 0#11 := by rw [exponentField, if_neg hm]
    have hsig : (BitVec.ofNat 52 (significandField m)).toNat = m := by
      rw [significandField, if_neg hm, BitVec.toNat_ofNat]
      omega
    have hzero : BitVec.ofNat 52 (significandField m) ≠ 0#52 := by
      intro heq
      rw [heq, BitVec.toNat_zero] at hsig
      omega
    rw [if_pos hexp, dif_neg hzero]
    simp only [hsig, hexp]
    congr 1
    rw [hfull.resolve_left hm]
    rfl

/-- What unpacking finds in a finite double is a normal pair. -/
theorem normal_of_bits {b : BitVec Format.binary64.numBits} {s : Sign} {m : Nat} {e : Int}
    {hm : 0 < m} (h : unpack .binary64 b = .finite s m e hm) : Normal m e := by
  have hmlt : (unpackMantissa b).toNat < 2 ^ 52 := BitVec.isLt _
  have helt : (unpackExponent b).toNat < 2 ^ 11 := BitVec.isLt _
  have hbias : ((Format.binary64.exponentBias : Int) + Format.binary64.mantissaBitsWithoutImplicit)
      = 1075 := rfl
  unfold UnpackedFloat.unpack at h
  dsimp only at h
  rw [hbias] at h
  split at h
  · split at h <;> cases h
  next hones =>
  have hne : (unpackExponent b).toNat ≠ 2047 :=
    fun heq => hones (BitVec.eq_of_toNat_eq heq)
  split at h
  · next hzero =>
    split at h
    · cases h
    next hsig =>
    -- a double without the implicit bit
    have hpos : (unpackMantissa b).toNat ≠ 0 :=
      fun heq => hsig (BitVec.eq_of_toNat_eq heq)
    rw [hzero] at h
    cases h
    change Normal _ (-1074)
    constructor <;> omega
  · next hzero =>
    have hne' : (unpackExponent b).toNat ≠ 0 :=
      fun heq => hzero (BitVec.eq_of_toNat_eq heq)
    have hbit := implicitBit_toNat (unpackMantissa b)
    cases h
    constructor <;> omega

theorem normal_of_unpack {x : Float.Model} {s : Sign} {m : Nat} {e : Int} {hm : 0 < m}
    (h : x.unpack = .finite s m e hm) : Normal m e := normal_of_bits h

/-! ## What is no number -/

/-- Packing makes no NaN. -/
theorem unpack_pack_ne_nan {u : UnpackedFloat} (h : u ≠ .notANumber) :
    (Float.Model.pack u).unpack ≠ .notANumber := by
  suffices unpackExponent (UnpackedFloat.pack .binary64 u) ≠ -1#_ ∨
      unpackMantissa (UnpackedFloat.pack .binary64 u) = 0#_ by
    intro heq
    have hbits := (unpack_eq_notANumber_iff_of_valid (Float.Model.pack u).valid).1 heq
    have hnan := @isNaNBits_packedNaN .binary64
    rw [← hbits, isNaNBits, decide_eq_true_eq] at hnan
    exact this.elim (fun hexponent => hexponent hnan.1) hnan.2
  cases u with
  | notANumber => exact absurd rfl h
  | infinity s => exact .inr unpackMantissa_packComponents
  | zero s => exact .inr unpackMantissa_packComponents
  | finite s m e hm =>
    unfold UnpackedFloat.pack
    dsimp only
    split
    · exact .inr unpackMantissa_packComponents
    · next hfits =>
      left
      have hfits' : ¬ 2048 ≤ (e + Format.binary64.exponentBias +
        Format.binary64.mantissaBitsWithoutImplicit).toNat + 1 := hfits
      split
      · rw [unpackExponent_packComponents]
        intro heq
        have := congrArg BitVec.toNat heq
        rw [BitVec.toNat_ofNat] at this
        change _ % 2 ^ 11 = 2047 at this
        omega
      · rw [unpackExponent_packComponents]
        decide

theorem roundWithAccuracy_ne_nan (s : Sign) (m : Nat) (e : Int) (a : Accuracy) :
    roundWithAccuracy .binary64 s m e a ≠ .notANumber := by
  unfold roundWithAccuracy
  dsimp only
  split <;> simp

theorem round_ne_nan (s : Sign) (m : Nat) (e : Int) :
    UnpackedFloat.round .binary64 s m e ≠ .notANumber :=
  roundWithAccuracy_ne_nan _ _ _ _

theorem mul_ne_nan {u : UnpackedFloat} (h : u ≠ .notANumber) {s : Sign} {m : Nat} {e : Int}
    (hm : 0 < m) : UnpackedFloat.mul .binary64 u (.finite s m e hm) ≠ .notANumber := by
  cases u with
  | notANumber => exact absurd rfl h
  | infinity => nofun
  | zero => nofun
  | finite => exact roundWithAccuracy_ne_nan _ _ _ _

theorem div_ne_nan {u : UnpackedFloat} (h : u ≠ .notANumber) {s : Sign} {m : Nat} {e : Int}
    (hm : 0 < m) : UnpackedFloat.div .binary64 u (.finite s m e hm) ≠ .notANumber := by
  cases u with
  | notANumber => exact absurd rfl h
  | infinity => nofun
  | zero => nofun
  | finite => exact roundWithAccuracy_ne_nan _ _ _ _

theorem neg_ne_nan {u : UnpackedFloat} (h : u ≠ .notANumber) : u.neg ≠ .notANumber := by
  cases u with
  | notANumber => exact absurd rfl h
  | infinity => nofun
  | zero => nofun
  | finite => nofun

end Calculator.Double

namespace Calculator

open Float.Model Float.Model.UnpackedFloat Double

/-! ## Equality of numbers -/

namespace Number

/-- What is not NaN. -/
def IsNumber (x : Number) : Prop := x.toModel.unpack ≠ .notANumber

theorem unpack_inj {x y : Number} (h : x.toModel.unpack = y.toModel.unpack) : x = y :=
  Float.toBits_inj.1 (UInt64.toBitVec_inj.1
    ((unpack_inj_of_valid x.toModel.valid y.toModel.valid).1 h))

theorem zero_unpack : (0 : Number).toModel.unpack = .zero .positive := by
  have : (0 : Number) = .ofModel (.pack (.zero .positive)) := by decide
  rw [this]
  rfl

/-- Equality tells numbers apart, but for the sign of zero; NaN is equal to nothing. -/
theorem beq_iff {x y : Number} : (x == y) = true ↔ x.IsNumber ∧ y.IsNumber ∧
    (x.toModel.unpack = y.toModel.unpack ∨
      (x.toModel.unpack = .zero .positive ∧ y.toModel.unpack = .zero .negative) ∨
      (x.toModel.unpack = .zero .negative ∧ y.toModel.unpack = .zero .positive)) :=
  beq_iff_ne_notANumber_and_eq _ _

/-- A number is equal to itself, and only NaN is not. -/
theorem beq_self {x : Number} (h : x.IsNumber) : (x == x) = true := beq_iff.2 ⟨h, h, .inl rfl⟩

/-- Equality with a finite number other than zero is identity. -/
theorem eq_of_beq {x y : Number} {s : Sign} {m : Nat} {e : Int} {hm : 0 < m}
    (hy : y.toModel.unpack = .finite s m e hm) (h : (x == y) = true) : x = y := by
  obtain ⟨-, -, hxy | ⟨-, hzero⟩ | ⟨-, hzero⟩⟩ := beq_iff.1 h
  · exact unpack_inj hxy
  · rw [hy] at hzero
    cases hzero
  · rw [hy] at hzero
    cases hzero

end Number

end Calculator
