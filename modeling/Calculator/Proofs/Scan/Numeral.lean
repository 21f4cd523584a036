import Calculator.Proofs.Number.ReadBack
import Calculator.Proofs.Scan.Spelling
import Mathlib.Order.Bounds.Basic

/-
  The longest numeral.  A numeral is digits with at most one point before, among or after them, and
  where it may be signed perhaps a minus before it all.  The pattern of numerals takes the longest one
  that stands at a place of a text, and fails just when none does; and what it takes, written with the
  common minus, denotes a number (`matchEnd?_numeral`).
-/

namespace Calculator

/-- A search that finds the greatest number of a set, and fails when the set is empty. -/
structure FindsGreatest (found : Option Nat) (s : Set Nat) : Prop where
  mem : ∀ n, found = some n → n ∈ s
  le : ∀ k ∈ s, ∃ n, found = some n ∧ k ≤ n

namespace FindsGreatest

variable {found : Option Nat} {s t : Set Nat}

theorem eq_some_iff (h : FindsGreatest found s) (n : Nat) : found = some n ↔ IsGreatest s n := by
  constructor
  · intro hn
    refine ⟨h.mem n hn, fun k hk => ?_⟩
    obtain ⟨n', hn', hle⟩ := h.le k hk
    obtain rfl := Option.some.inj (hn.symm.trans hn')
    exact hle
  · rintro ⟨hmem, hgreatest⟩
    obtain ⟨n', hn', hle⟩ := h.le n hmem
    rw [hn', Nat.le_antisymm hle (hgreatest (h.mem n' hn'))]

theorem eq_none_iff (h : FindsGreatest found s) : found = none ↔ s = ∅ := by
  rw [Set.eq_empty_iff_forall_notMem]
  constructor
  · rintro rfl k hk
    obtain ⟨n, hn, -⟩ := h.le k hk
    cases hn
  · intro hempty
    rw [Option.eq_none_iff_forall_ne_some]
    exact fun n hn => hempty n (h.mem n hn)

/-- Counted from a later place, a search finds the greatest number of the set counted from there. -/
theorem add (h : FindsGreatest found s) {offset : Nat} (hlow : ∀ k ∈ t, offset ≤ k)
    (hiff : ∀ k, offset + k ∈ t ↔ k ∈ s) : FindsGreatest (found.map (offset + ·)) t where
  mem n hn := by
    obtain ⟨k, hk, rfl⟩ := Option.map_eq_some_iff.1 hn
    exact (hiff k).2 (h.mem k hk)
  le k hk := by
    obtain ⟨k, rfl⟩ := Nat.exists_eq_add_of_le (hlow k hk)
    obtain ⟨n, rfl, hle⟩ := h.le k ((hiff k).1 hk)
    exact ⟨offset + n, rfl, Nat.add_le_add_left hle offset⟩

end FindsGreatest

namespace Numeral

/-- Whether a text is a numeral: a magnitude, and where it may be signed perhaps a minus before it. -/
def isWritten (signed : Bool) (cs : List Char) : Bool :=
  isMagnitude cs || signed && cs.head?.any Pattern.isMinus && isMagnitude cs.tail

/-- Whether characters are the rest of a magnitude, given whether a point and whether a digit came
before. -/
def continues (point digit : Bool) (cs : List Char) : Bool :=
  (digit || cs.any Char.isDigit) && cs.all (fun c => c.isDigit || c == '.') &&
    cs.count '.' + point.toNat ≤ 1

theorem continues_start (cs : List Char) : continues false false cs = isMagnitude cs := rfl

theorem continues_digit {c : Char} (hc : c.isDigit = true) (point digit : Bool) (cs : List Char) :
    continues point digit (c :: cs) = continues point true cs := by
  have hne : c ≠ '.' := by
    rintro rfl
    exact absurd hc (by decide)
  simp [continues, hc, hne]

theorem continues_point (digit : Bool) (cs : List Char) :
    continues false digit ('.' :: cs) = continues true digit cs := by
  simp [continues]

/-- Neither a digit nor a point that is still due, a character is no part of a magnitude. -/
theorem continues_stop {c : Char} {point : Bool} (hc : ¬ c.isDigit = true)
    (hpoint : ¬ (c == '.' && !point) = true) (digit : Bool) (cs : List Char) :
    continues point digit (c :: cs) = false := by
  by_cases heq : c = '.'
  · subst heq
    cases point with
    | false => exact absurd rfl hpoint
    | true => simp [continues]
  · simp [continues, hc, heq]

end Numeral

/-- What a search in a text finds that looks for the longest start of it that passes a test. -/
def FindsLongest (found : Option Nat) (ok : List Char → Bool) (cs : List Char) : Prop :=
  FindsGreatest found {n | n ≤ cs.length ∧ ok (cs.take n) = true}

namespace FindsLongest

variable {found : Option Nat} {ok ok' : List Char → Bool} {c : Char} {cs : List Char}

/-- A character that makes no difference goes before what is found behind it. -/
theorem cons (h : FindsLongest found ok cs) (hnil : ok' [] = true → ok [] = true)
    (hcons : ∀ others, ok' (c :: others) = ok others) :
    FindsLongest (found.map (· + 1)) ok' (c :: cs) where
  mem n hn := by
    obtain ⟨k, hk, rfl⟩ := Option.map_eq_some_iff.1 hn
    obtain ⟨hle, hok⟩ := h.mem k hk
    exact ⟨Nat.succ_le_succ hle, by rw [List.take_succ_cons, hcons]; exact hok⟩
  le k hk := by
    obtain ⟨hle, hok⟩ := hk
    cases k with
    | zero =>
      obtain ⟨n, rfl, -⟩ := h.le 0 ⟨Nat.zero_le _, hnil hok⟩
      exact ⟨n + 1, rfl, Nat.zero_le _⟩
    | succ k =>
      rw [List.take_succ_cons, hcons] at hok
      obtain ⟨n, rfl, hn⟩ := h.le k ⟨Nat.le_of_succ_le_succ hle, hok⟩
      exact ⟨n + 1, rfl, Nat.succ_le_succ hn⟩

/-- Where no character may be taken, no start but the empty one passes. -/
theorem eq_zero (hstop : ∀ c ∈ cs.head?, ∀ others, ok (c :: others) = false) {k : Nat}
    (hle : k ≤ cs.length) (hok : ok (cs.take k) = true) : k = 0 := by
  cases cs with
  | nil => exact Nat.le_zero.1 hle
  | cons c cs =>
    cases k with
    | zero => rfl
    | succ k =>
      rw [List.take_succ_cons, hstop c rfl] at hok
      cases hok

theorem empty (hnil : ok [] = true) (hstop : ∀ c ∈ cs.head?, ∀ others, ok (c :: others) = false) :
    FindsLongest (some 0) ok cs where
  mem n hn := by
    obtain rfl := Option.some.inj hn
    exact ⟨Nat.zero_le _, by rw [List.take_zero]; exact hnil⟩
  le k hk := ⟨0, rfl, Nat.le_of_eq (eq_zero hstop hk.1 hk.2)⟩

theorem nothing (hnil : ok [] = false)
    (hstop : ∀ c ∈ cs.head?, ∀ others, ok (c :: others) = false) : FindsLongest none ok cs where
  mem n hn := by cases hn
  le k hk := by
    obtain ⟨hle, hok⟩ := hk
    obtain rfl := eq_zero hstop hle hok
    rw [List.take_zero, hnil] at hok
    cases hok

end FindsLongest

namespace Scan

open Pattern Numeral

variable {signed : Bool} {cs : List Char}

/-- The rest of a magnitude is as long as it can be. -/
theorem numeralLength?_longest (point digit : Bool) (cs : List Char) :
    FindsLongest (numeralLength? point digit cs) (continues point digit) cs := by
  have hnil (point digit : Bool) : continues point digit [] = digit := by
    cases point <;> cases digit <;> rfl
  fun_induction numeralLength? point digit cs with
  | case1 point => exact .empty (hnil point true) (by simp)
  | case2 point digit hdigit => exact .nothing (by simpa [hnil] using hdigit) (by simp)
  | case3 point digit c cs hd ih =>
    exact ih.cons (fun _ => hnil point true) fun others => continues_digit hd point digit others
  | case4 point digit c cs hd hp ih =>
    obtain ⟨hc, hpoint⟩ := (Bool.and_eq_true _ _).mp hp
    rw [beq_iff_eq] at hc
    rw [Bool.not_eq_true'] at hpoint
    subst hc hpoint
    refine ih.cons (fun h => ?_) fun others => continues_point digit others
    rw [hnil] at h ⊢
    exact h
  | case5 point c cs hd hp =>
    refine .empty (hnil point true) ?_
    rintro _ ⟨⟩
    exact continues_stop hd hp true
  | case6 point digit c cs hd hp hdigit =>
    refine .nothing (by simpa [hnil] using hdigit) ?_
    rintro _ ⟨⟩
    exact continues_stop hd hp digit

/-- The pattern of numerals matches the longest numeral at the start of a text. -/
theorem matchLength?_longest (signed : Bool) (cs : List Char) :
    FindsLongest ((Pattern.numeral signed).matchLength? cs) (isWritten signed) cs := by
  rw [matchLength?]
  split
  · next hsign =>
    cases cs with
    | nil => simp at hsign
    | cons c cs =>
      obtain ⟨rfl, hminus⟩ : signed = true ∧ isMinus c = true := by simpa using hsign
      have hnot (others : List Char) : isMagnitude (c :: others) = false := by
        rw [← Bool.not_eq_true]
        intro h
        rw [isMinus_of_isMagnitude h] at hminus
        cases hminus
      refine (numeralLength?_longest false false cs).cons (fun h => h) fun others => ?_
      simp [isWritten, hnot, hminus, continues_start]
  · next hsign =>
    -- Where no minus may be taken, the numerals are the magnitudes.
    have hsame (n : Nat) : isWritten signed (cs.take n) = isMagnitude (cs.take n) := by
      rw [Bool.not_eq_true] at hsign
      cases n <;> cases cs <;> simp_all [isWritten]
    have hlongest := numeralLength?_longest false false cs
    rw [FindsLongest] at hlongest ⊢
    simp only [hsame]
    exact hlongest

end Scan

/-! ## What numerals are read as -/

namespace Numeral

/-- The decimal that digits stand for, with or without a point before, among or after them. -/
inductive IsDecimal : List Char → Decimal → Prop where
  | whole {whole : List Char} (hne : whole ≠ []) (h : ∀ c ∈ whole, c.isDigit) :
      IsDecimal whole ⟨Nat.ofDigitChars 10 whole 0, 0⟩
  | point {whole fraction : List Char} (hne : whole ++ fraction ≠ [])
      (hwhole : ∀ c ∈ whole, c.isDigit) (hfraction : ∀ c ∈ fraction, c.isDigit) :
      IsDecimal (whole ++ '.' :: fraction)
        ⟨Nat.ofDigitChars 10 (whole ++ fraction) 0, -fraction.length⟩

/-- The number that a decimal text denotes, with a minus before it or without one: the double nearest
to the decimal, with that sign.  Other texts denote none. -/
inductive Denotes : List Char → Number → Prop where
  | positive {cs : List Char} {d : Decimal} (h : IsDecimal cs d) : Denotes cs d.toNumber
  | negative {cs : List Char} {d : Decimal} (h : IsDecimal cs d) : Denotes ('-' :: cs) (-d.toNumber)

variable {cs : List Char}

/-- Every magnitude stands for a decimal. -/
theorem isDecimal_of_isMagnitude (h : isMagnitude cs = true) : IsDecimal cs (decimal cs) := by
  simp only [isMagnitude, Bool.and_eq_true, List.any_eq_true, List.all_eq_true, Bool.or_eq_true,
    beq_iff_eq, decide_eq_true_eq] at h
  obtain ⟨⟨⟨c, hc, hdigit⟩, hall⟩, hcount⟩ := h
  have hdigits (part : List Char) (hpart : ∀ x ∈ part, x ∈ cs) (hpoint : '.' ∉ part) :
      ∀ x ∈ part, x.isDigit := by
    intro x hx
    rcases hall x (hpart x hx) with hx' | rfl
    · exact hx'
    · exact absurd hx hpoint
  by_cases hpoint : '.' ∈ cs
  · obtain ⟨whole, fraction, rfl, hwhole⟩ := List.eq_append_cons_of_mem hpoint
    have hfraction : '.' ∉ fraction := by
      rw [List.count_append, List.count_cons_self] at hcount
      exact List.count_eq_zero.1 (by omega)
    have hwhole' := hdigits whole (by simp +contextual) hwhole
    have hfraction' := hdigits fraction (by simp +contextual) hfraction
    rw [decimal_point hwhole']
    refine .point ?_ hwhole' hfraction'
    rintro hnil
    obtain ⟨rfl, rfl⟩ := List.append_eq_nil_iff.1 hnil
    obtain rfl := List.mem_singleton.1 hc
    exact absurd hdigit (by decide)
  · have hwhole := hdigits cs (fun _ hx => hx) hpoint
    rw [decimal_whole hwhole]
    exact .whole (List.ne_nil_of_mem hc) hwhole

/-- Every numeral, with the common minus, denotes the number that it is read as. -/
theorem denotes_of_isNumeral (h : isNumeral cs = true) : Denotes (withHyphen cs) (read cs) := by
  cases cs with
  | nil => cases h
  | cons c cs =>
    rw [isNumeral] at h
    split at h
    · next hminus =>
      have hhyphen : withHyphen (c :: cs) = '-' :: cs := by
        rw [Pattern.isMinus, Bool.or_eq_true, beq_iff_eq, beq_iff_eq] at hminus
        rcases hminus with rfl | rfl <;> rfl
      rw [← read_withHyphen, hhyphen, read_negative]
      exact .negative (isDecimal_of_isMagnitude h)
    · next hminus =>
      have hhyphen : withHyphen (c :: cs) = c :: cs := by
        unfold withHyphen
        split
        · next heq =>
          obtain ⟨rfl, -⟩ := List.cons.inj heq
          exact absurd (by decide) hminus
        · rfl
      have hfirst : (c.isDigit || c == '.') = true := by
        simp only [isMagnitude, List.all_cons, Bool.and_eq_true] at h
        exact h.1.2.1
      rw [hhyphen, read, if_pos hfirst]
      exact .positive (isDecimal_of_isMagnitude h)

theorem isNumeral_of_isWritten {signed : Bool} (h : isWritten signed cs = true) :
    isNumeral cs = true := by
  rw [isWritten, Bool.or_eq_true] at h
  rcases h with h | h
  · exact Scan.isNumeral_of_isMagnitude h
  · obtain ⟨hsign, h⟩ := (Bool.and_eq_true _ _).mp h
    cases cs with
    | nil => simp at hsign
    | cons c cs =>
      obtain ⟨-, hminus⟩ : signed = true ∧ Pattern.isMinus c = true := by simpa using hsign
      rw [isNumeral, if_pos hminus]
      exact h

end Numeral

/-! ## Numerals in a text -/

namespace Scan

open Pattern Numeral

/-- Where the numerals end that stand at a place of a text. -/
def numeralStops (signed : Bool) (text : Array Char) (offset : Nat) : Set Nat :=
  {stop | offset ≤ stop ∧ stop ≤ text.size ∧ isWritten signed (text.extract offset stop).toList = true}

theorem matchEnd?_greatest (signed : Bool) (text : Array Char) (offset : Nat) :
    FindsGreatest ((Pattern.numeral signed).matchEnd? text offset)
      (numeralStops signed text offset) := by
  by_cases h : offset ≤ text.size
  · rw [matchEnd?_eq text _ h]
    refine (matchLength?_longest signed _).add (fun k hk => hk.1) fun k => ?_
    have hle : k ≤ (text.toList.drop offset).length ↔ offset + k ≤ text.size := by
      rw [List.length_drop, Array.length_toList]
      omega
    simp only [numeralStops, Set.mem_ofPred_eq, extract_add, hle, Nat.le_add_right, true_and]
  · have hpast : ¬ offset < text.size := fun hlt => h (Nat.le_of_lt hlt)
    have hnone : (Pattern.numeral signed).matchEnd? text offset = none := by
      rw [matchEnd?, Array.getElem?_eq_none (Nat.le_of_not_lt hpast), Option.any_none, Bool.and_false,
        if_neg Bool.false_ne_true, numeralEnd?_eq, drop_eq_nil text hpast]
      rfl
    rw [hnone]
    exact {
      mem := fun n hn => by cases hn
      le := fun k hk => absurd (Nat.le_trans hk.1 hk.2.1) h }

/-- The pattern of numerals matches up to where the longest numeral ends, and fails when there is
none.  Whatever it takes denotes a number, the one that it is read as. -/
theorem matchEnd?_numeral (signed : Bool) (text : Array Char) (offset : Nat) :
    (∀ stop, (Pattern.numeral signed).matchEnd? text offset = some stop ↔
      IsGreatest (numeralStops signed text offset) stop) ∧
    ((Pattern.numeral signed).matchEnd? text offset = none ↔
      numeralStops signed text offset = ∅) ∧
    ∀ cs next, Cursor.nibble? ⟨text, offset⟩ (.numeral signed) = some (cs, next) →
      Denotes (withHyphen cs) (read cs) := by
  have hgreatest := matchEnd?_greatest signed text offset
  refine ⟨hgreatest.eq_some_iff, hgreatest.eq_none_iff, fun cs next h => ?_⟩
  obtain ⟨stop, hstop, heq⟩ := Option.map_eq_some_iff.1 h
  obtain ⟨rfl, -⟩ := Prod.mk.inj heq
  obtain ⟨hstop, -⟩ := Option.filter_eq_some_iff.1 hstop
  exact denotes_of_isNumeral (isNumeral_of_isWritten (hgreatest.mem stop hstop).2.2)

/-- A second point ends a numeral. -/
example : (Pattern.numeral true).matchEnd? #['-', '1', '2', '.', '5', '.', '3'] 0 = some 5 := by cbv

end Scan

end Calculator
