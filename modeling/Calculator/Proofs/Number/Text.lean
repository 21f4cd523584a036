import Calculator.Proofs.Number.ReadBack

/-
  Texts of numbers.  A text of digits, with a point or a power of ten, has one value (`Written`), and
  a decimal is laid out as a text of its value (`written_write`).  The fewest digits of a number are
  rounded to the number again, so the text of a number tells it from every other number, a zero with
  a sign included (`text_inj`).
-/

namespace Calculator

open Float.Model Float.Model.UnpackedFloat Double

/-- A text is cut in one way at the first place of a character. -/
theorem Text.cut_inj {c : Char} {cs ds before after : List Char} (hcs : c ∉ cs) (hds : c ∉ ds)
    (h : cs ++ c :: before = ds ++ c :: after) : cs = ds ∧ before = after := by
  induction cs generalizing ds with
  | nil =>
    cases ds with
    | nil => exact ⟨rfl, (List.cons.inj h).2⟩
    | cons d ds => exact absurd (List.cons.inj h).1 (List.ne_of_not_mem_cons hds)
  | cons b cs ih =>
    cases ds with
    | nil => exact absurd (List.cons.inj h).1.symm (List.ne_of_not_mem_cons hcs)
    | cons d ds =>
      obtain ⟨rfl, hrest⟩ := List.cons.inj h
      obtain ⟨rfl, hafter⟩ :=
        ih (List.not_mem_of_not_mem_cons hcs) (List.not_mem_of_not_mem_cons hds) hrest
      exact ⟨rfl, hafter⟩

namespace Numeral

/-- The characters of a magnitude: digits and points, a digit first. -/
theorem IsMagnitude.chars {cs : List Char} (h : IsMagnitude cs) :
    (∃ c rest, cs = c :: rest ∧ c.isDigit) ∧ ∀ c ∈ cs, c.isDigit ∨ c = '.' := by
  obtain ⟨whole, fraction, hne, hwhole, hfraction, hcs⟩ := h
  obtain ⟨c, rest, rfl⟩ := List.exists_cons_of_ne_nil hne
  have hc : c.isDigit := hwhole c List.mem_cons_self
  rcases hcs with rfl | rfl
  · exact ⟨⟨c, rest, rfl, hc⟩, fun d hd => .inl (hwhole d hd)⟩
  · refine ⟨⟨c, _, List.cons_append, hc⟩, fun d hd => ?_⟩
    rcases List.mem_append.1 hd with hd | hd
    · exact .inl (hwhole d hd)
    · exact (List.mem_cons.1 hd).elim .inr fun hd => .inl (hfraction d hd)

theorem not_mem_toDigits {c : Char} (hc : c.isDigit = false) (n : Nat) : c ∉ Nat.toDigits 10 n :=
  fun hmem => Bool.false_ne_true (hc ▸ isDigit_of_mem_toDigits hmem)

theorem toDigits_inj {n n' : Nat} (h : Nat.toDigits 10 n = Nat.toDigits 10 n') : n = n' := by
  rw [← Nat.ofDigitChars_ten_toDigits (n := n), h, Nat.ofDigitChars_ten_toDigits]

end Numeral

namespace Layout

/-! ## Texts with a value -/

/-- A power of ten with its sign. -/
def power (negative : Bool) (digits : List Char) : Int :=
  if negative then -(Nat.ofDigitChars 10 digits 0 : Int) else Nat.ofDigitChars 10 digits 0

/-- A text of digits has a value: a magnitude, perhaps times a power of ten. -/
inductive Written : List Char → ℚ → Prop where
  | plain {cs : List Char} (h : Numeral.IsMagnitude cs) : Written cs (Numeral.decimal cs).value
  | scientific {cs digits : List Char} (negative : Bool) (h : Numeral.IsMagnitude cs)
      (hdigits : ∀ c ∈ digits, c.isDigit) :
      Written (cs ++ 'e' :: (if negative then '-' else '+') :: digits)
        ((Numeral.decimal cs).value * 10 ^ power negative digits)

namespace Written

variable {cs : List Char} {q q' : ℚ}

theorem not_mem_of_isMagnitude (h : Numeral.IsMagnitude cs) {c : Char} (hc : c.isDigit = false)
    (hpoint : c ≠ '.') : c ∉ cs := by
  intro hmem
  rcases h.chars.2 c hmem with hdigit | rfl
  · rw [hc] at hdigit
    cases hdigit
  · exact hpoint rfl

theorem head (h : Written cs q) : ∃ c rest, cs = c :: rest ∧ c.isDigit := by
  cases h with
  | plain h => exact h.chars.1
  | scientific negative h hdigits =>
    obtain ⟨c, rest, rfl, hc⟩ := h.chars.1
    exact ⟨c, _, List.cons_append, hc⟩

/-- It holds no line feed. -/
theorem not_mem_feed (h : Written cs q) : '\n' ∉ cs := by
  cases h with
  | plain h => exact not_mem_of_isMagnitude h rfl (by decide)
  | scientific negative h hdigits =>
    intro hmem
    rcases List.mem_append.1 hmem with hmem | hmem
    · exact not_mem_of_isMagnitude h rfl (by decide) hmem
    rcases List.mem_cons.1 hmem with heq | hmem
    · cases heq
    rcases List.mem_cons.1 hmem with heq | hmem
    · cases negative <;> cases heq
    · cases hdigits _ hmem

/-- A text has one value. -/
theorem unique (h : Written cs q) (h' : Written cs q') : q = q' := by
  have hplain {cs : List Char} (h : Numeral.IsMagnitude cs) : 'e' ∉ cs :=
    not_mem_of_isMagnitude h rfl (by decide)
  cases h with
  | plain h =>
    generalize heq : cs = ds at h'
    cases h' with
    | plain h' => rfl
    | scientific negative h' hdigits =>
      exact absurd (heq ▸ List.mem_append_right _ List.mem_cons_self) (hplain h)
  | @scientific ds digits negative h hdigits =>
    generalize heq : ds ++ 'e' :: (if negative then '-' else '+') :: digits = es at h'
    cases h' with
    | plain h' => exact absurd (heq ▸ List.mem_append_right _ List.mem_cons_self) (hplain h')
    | scientific negative' h' hdigits' =>
      obtain ⟨rfl, htail⟩ := Text.cut_inj (hplain h) (hplain h') heq
      obtain ⟨hsign, rfl⟩ := List.cons.inj htail
      have hnegative : negative = negative' := by
        cases negative <;> cases negative' <;> first | rfl | cases hsign
      rw [hnegative]

/-- A magnitude of that value. -/
theorem of_value (h : Numeral.IsMagnitude cs) (hvalue : (Numeral.decimal cs).value = q) :
    Written cs q := by
  rw [← hvalue]
  exact .plain h

end Written

/-! ## Decimals laid out -/

section Digits

variable {digits : List Char} (hdigits : ∀ c ∈ digits, c.isDigit)
include hdigits

/-- A whole number may show a point and a zero. -/
theorem written_whole (hne : digits ≠ []) (showsPoint : Bool) :
    Written (digits ++ if showsPoint then ['.', '0'] else []) (Nat.ofDigitChars 10 digits 0) := by
  cases showsPoint with
  | false =>
    rw [if_neg Bool.false_ne_true, List.append_nil]
    refine .of_value ⟨digits, [], hne, hdigits, List.forall_mem_nil _, .inl rfl⟩ ?_
    rw [Numeral.decimal_whole hdigits, Decimal.value_natural]
  | true =>
    have hzero : ∀ c ∈ ['0'], c.isDigit := by simp
    have hread : Nat.ofDigitChars 10 (digits ++ ['0']) 0 = 10 * Nat.ofDigitChars 10 digits 0 := by
      rw [Nat.ofDigitChars_append]
      simp [Nat.ofDigitChars_cons]
    refine .of_value ⟨digits, ['0'], hne, hdigits, hzero, .inr rfl⟩ ?_
    rw [if_pos rfl, Numeral.decimal_point hdigits, Decimal.value, hread]
    change ((10 * Nat.ofDigitChars 10 digits 0 : Nat) : ℚ) * 10 ^ (-1 : Int) = _
    rw [zpow_neg_one, Nat.cast_mul, Nat.cast_ofNat, mul_right_comm, mul_inv_cancel₀ (by norm_num),
      one_mul]

theorem written_positional (hne : digits ≠ []) (point : Int) (showsPoint : Bool) :
    Written (positional digits point ++
        if showsPoint && digits.length ≤ point then ['.', '0'] else [])
      (Nat.ofDigitChars 10 digits 0 * 10 ^ (point - digits.length)) := by
  by_cases hwhole : (digits.length : Int) ≤ point
  · have hpos : 0 < digits.length := List.length_pos_iff.2 hne
    have hzeros : ((point.toNat - digits.length : Nat) : Int) = point - digits.length := by omega
    have hall : ∀ c ∈ digits ++ List.replicate (point.toNat - digits.length) '0', c.isDigit :=
      List.forall_mem_append.2 ⟨hdigits, fun _ hc => Numeral.isDigit_of_mem_replicate hc⟩
    have hwritten := written_whole hall (List.append_ne_nil_of_left_ne_nil hne _) showsPoint
    rw [Nat.ofDigitChars_append, Nat.ofDigitChars_replicate_zero, Nat.mul_comm] at hwritten
    push_cast at hwritten
    rw [positional, if_neg (by omega), if_pos (by omega), decide_eq_true hwhole, Bool.and_true,
      ← hzeros, zpow_natCast]
    exact hwritten
  · obtain ⟨hshape, -, hvalue⟩ := positional_value hdigits hne point
    rw [decide_eq_false hwhole, Bool.and_false, if_neg Bool.false_ne_true, List.append_nil]
    exact .of_value hshape hvalue

/-- The first digit, and the point before the others. -/
theorem point_second (hne : digits ≠ []) :
    Numeral.IsMagnitude (digits.take 1 ++
        if (digits.drop 1).isEmpty then [] else '.' :: digits.drop 1) ∧
      (Numeral.decimal (digits.take 1 ++
        if (digits.drop 1).isEmpty then [] else '.' :: digits.drop 1)).value =
          Nat.ofDigitChars 10 digits 0 * 10 ^ (1 - digits.length : Int) := by
  obtain ⟨c, rest, rfl⟩ := List.exists_cons_of_ne_nil hne
  cases rest with
  | nil =>
    refine ⟨⟨[c], [], hne, hdigits, List.forall_mem_nil _, .inl rfl⟩, ?_⟩
    change (Numeral.decimal [c]).value = _
    rw [Numeral.decimal_whole hdigits, Decimal.value]
    rfl
  | cons d rest =>
    have hlength : 1 < (c :: d :: rest).length := by simp
    obtain ⟨hshape, hdecimal⟩ := point_within hdigits Nat.one_pos hlength
    refine ⟨hshape, ?_⟩
    change (Numeral.decimal ([c] ++ '.' :: d :: rest)).value = _
    exact congrArg Decimal.value hdecimal

theorem written_scientific (hne : digits ≠ []) (power : Int) :
    Written (scientific digits power)
      (Nat.ofDigitChars 10 digits 0 * 10 ^ (power + 1 - digits.length)) := by
  obtain ⟨hshape, hvalue⟩ := point_second hdigits hne
  have hpower : ∀ c ∈ List.replicate (2 - (Nat.toDigits 10 power.natAbs).length) '0' ++
      Nat.toDigits 10 power.natAbs, c.isDigit :=
    List.forall_mem_append.2 ⟨fun _ hc => Numeral.isDigit_of_mem_replicate hc,
      fun _ => Numeral.isDigit_of_mem_toDigits⟩
  have hread : Layout.power (decide (power < 0))
      (List.replicate (2 - (Nat.toDigits 10 power.natAbs).length) '0' ++
        Nat.toDigits 10 power.natAbs) = power := by
    rw [Layout.power, Nat.ofDigitChars_append, Nat.ofDigitChars_replicate_zero, Nat.mul_zero,
      Nat.ofDigitChars_ten_toDigits]
    split
    · next hnegative =>
      have := of_decide_eq_true hnegative
      omega
    · next hnegative =>
      have := of_decide_eq_false (Bool.not_eq_true _ ▸ hnegative)
      omega
  have hwritten := Written.scientific (decide (power < 0)) hshape hpower
  rw [hread, hvalue, mul_assoc, ← zpow_add₀ (by norm_num), add_comm, ← add_sub_assoc] at hwritten
  simpa [scientific] using hwritten

end Digits

/-- The zeros at the end of some digits, and what is left. -/
theorem trimmed_append (digits : List Char) :
    ∃ zeros, digits = trimmed digits ++ List.replicate zeros '0' := by
  refine ⟨(digits.reverse.takeWhile (· == '0')).length, ?_⟩
  have hzeros : digits.reverse.takeWhile (· == '0') =
      List.replicate (digits.reverse.takeWhile (· == '0')).length '0' :=
    List.eq_replicate_length.2 fun c hc => beq_iff_eq.1 (List.mem_takeWhile_imp (p := (· == '0')) hc)
  rw [trimmed, ← List.reverse_replicate, ← hzeros, ← List.reverse_append,
    List.takeWhile_append_dropWhile, List.reverse_reverse]

/-- A decimal is laid out as a text of its value. -/
theorem written_write (l : Layout) (d : Decimal) : Written (l.write d) d.value := by
  obtain ⟨n, e⟩ := d
  unfold write
  dsimp only
  split
  · next hzero =>
    rw [hzero, Decimal.value, Nat.cast_zero, zero_mul]
    have hdigits : ∀ c ∈ ['0'], c.isDigit := by simp
    have hwritten := written_whole hdigits (List.cons_ne_nil _ _) l.showsPoint
    rwa [show Nat.ofDigitChars 10 ['0'] 0 = 0 from rfl, Nat.cast_zero] at hwritten
  next hn =>
  obtain ⟨zeros, hsplit⟩ := trimmed_append (Nat.toDigits 10 n)
  generalize hdigits : trimmed (Nat.toDigits 10 n) = digits at hsplit
  have hread : n = Nat.ofDigitChars 10 digits 0 * 10 ^ zeros := by
    have h := Nat.ofDigitChars_ten_toDigits (n := n)
    rw [hsplit, Nat.ofDigitChars_append, Nat.ofDigitChars_replicate_zero, Nat.mul_comm] at h
    exact h.symm
  have hall : ∀ c ∈ digits, c.isDigit := fun c hc =>
    Numeral.isDigit_of_mem_toDigits (hsplit ▸ List.mem_append_left _ hc)
  have hne : digits ≠ [] := by
    rintro rfl
    rw [Nat.ofDigitChars_nil, Nat.zero_mul] at hread
    exact hn hread
  have hvalue (point : Int) (hpoint : point = (Nat.toDigits 10 n).length + e) :
      (Nat.ofDigitChars 10 digits 0 * 10 ^ (point - digits.length) : ℚ) = Decimal.value ⟨n, e⟩ := by
    have hlength : (Nat.toDigits 10 n).length = digits.length + zeros := by
      rw [hsplit, List.length_append, List.length_replicate]
    have hexponent : point - digits.length = zeros + e := by omega
    rw [hexponent, zpow_add₀ (by norm_num), zpow_natCast, ← mul_assoc, Decimal.value]
    congr 1
    exact_mod_cast hread.symm
  split
  · have hwritten := written_positional hall hne ((Nat.toDigits 10 n).length + e) l.showsPoint
    rw [hvalue _ rfl] at hwritten
    exact hwritten
  · have hwritten := written_scientific hall hne ((Nat.toDigits 10 n).length + e - 1)
    rw [sub_add_cancel, hvalue _ rfl] at hwritten
    exact hwritten

end Layout

namespace Number

/-! ## Texts of numbers -/

/-- What a text says of a number: its sign, and its magnitude or that it is infinite. -/
inductive Told : Number → List Char → Prop where
  | infinite (negative : Bool) :
      Told (withSign negative (.ofModel (.pack (.infinity .positive))))
        (signed negative ['i', 'n', 'f'])
  | finite (negative : Bool) {cs : List Char} {q : ℚ} (h : Layout.Written cs q) :
      Told (withSign negative (.ofModel (.pack (rounded .positive q)))) (signed negative cs)

/-- The text of a number tells which number it is. -/
theorem told_text {x : Number} (h : x.IsNumber) : Told x (text x) := by
  unfold text textWith view
  cases hx : x.toModel.unpack with
  | notANumber => exact absurd hx h
  | infinity s =>
    rw [eq_withSign_infinity hx]
    exact .infinite _
  | zero s =>
    have hwritten := Layout.written_write ⟨-4, 16, true⟩ (Binary.shortest ⟨s == .negative, 0, 0⟩)
    have hvalue : (Binary.shortest ⟨s == .negative, 0, 0⟩).value = 0 := by
      rw [Binary.shortest, if_pos rfl, Decimal.value_natural, Nat.cast_zero]
    rw [hvalue] at hwritten
    rw [eq_withSign (u := .zero) (fun s => by cases s <;> rfl) rfl hx, ← rounded_zero]
    exact .finite _ hwritten
  | finite s m e hm =>
    have hn : Normal m e := normal_of_unpack hx
    obtain ⟨hread, hlow, hhigh⟩ := Binary.shortest_sound (b := ⟨s == .negative, m, e⟩) hn
    rw [Decimal.toNumber_eq hlow hhigh] at hread
    rw [eq_withSign_finite hn hx, ← hread]
    exact .finite _ (Layout.written_write _ _)

theorem signed_inj {a b : Bool} {cs ds : List Char} (hcs : cs.head? ≠ some '-')
    (hds : ds.head? ≠ some '-') (h : signed a cs = signed b ds) : a = b ∧ cs = ds := by
  cases a <;> cases b
  · exact ⟨rfl, h⟩
  · exact absurd (congrArg List.head? h) hcs
  · exact absurd (congrArg List.head? h.symm) hds
  · exact ⟨rfl, (List.cons.inj h).2⟩

theorem head_of_written {cs : List Char} {q : ℚ} (h : Layout.Written cs q) :
    cs.head? ≠ some '-' ∧ cs.head? ≠ some 'i' := by
  obtain ⟨c, rest, rfl, hc⟩ := h.head
  constructor
  · rintro ⟨⟩
    cases hc
  · rintro ⟨⟩
    cases hc

/-- A text tells one number. -/
theorem Told.unique {x y : Number} {cs : List Char} (hx : Told x cs) (hy : Told y cs) : x = y := by
  have hinf : ['i', 'n', 'f'].head? ≠ some '-' := by decide
  cases hx with
  | infinite a =>
    generalize heq : signed a ['i', 'n', 'f'] = ds at hy
    cases hy with
    | infinite b => rw [(signed_inj hinf hinf heq).1]
    | finite b h =>
      obtain ⟨hminus, hletter⟩ := head_of_written h
      obtain ⟨-, rfl⟩ := signed_inj hinf hminus heq
      exact absurd rfl hletter
  | @finite a es q h =>
    obtain ⟨hminus, hletter⟩ := head_of_written h
    generalize heq : signed a es = ds at hy
    cases hy with
    | infinite b =>
      obtain ⟨-, rfl⟩ := signed_inj hminus hinf heq
      exact absurd rfl hletter
    | finite b h' =>
      obtain ⟨rfl, rfl⟩ := signed_inj hminus (head_of_written h').1 heq
      rw [h.unique h']

/-- Such a text is one line. -/
theorem Told.not_mem_feed {x : Number} {cs : List Char} (h : Told x cs) : '\n' ∉ cs := by
  have hsigned {negative : Bool} {cs : List Char} (hcs : '\n' ∉ cs) : '\n' ∉ signed negative cs := by
    cases negative with
    | false => exact hcs
    | true => exact List.not_mem_cons_of_ne_of_not_mem (by decide) hcs
  cases h with
  | infinite negative => exact hsigned (by decide)
  | finite negative h => exact hsigned h.not_mem_feed

/-- Numbers of one text are one number, zeros with different signs included. -/
theorem text_inj {x y : Number} (hx : x.IsNumber) (hy : y.IsNumber) (h : text x = text y) : x = y :=
  (told_text hx).unique (h ▸ told_text hy)

end Number

end Calculator
