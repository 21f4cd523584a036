import Calculator.Proofs.Scan.Munch

/-
  Lexemes by their text.  A lexeme is determined by the characters that it takes up: one of the
  spellings of a reserved word or a symbol, else a numeral, else a name (`Lexeme.ofText`).  Whatever
  the scanner finds at a place, with or without the right to a sign, is the lexeme of the text that it
  takes there (`lexemeAt?_ofText`).
-/

namespace Calculator

/-- Other ways to write a reserved word or a symbol. -/
def Lexeme.aliases : List (List Char × Lexeme) :=
  [(['E'], .keyword .e), (['π'], .keyword .pi), (['𝜋'], .keyword .pi), (['m', 'o', 'd'], .symbol .mod),
    (['×'], .symbol .mul), (['÷'], .symbol .div), (['−'], .symbol .sub)]

/-- Every way to write a reserved word or a symbol. -/
def Lexeme.spellings : List (List Char × Lexeme) :=
  Keyword.all.map (fun word => (word.spelling, .keyword word)) ++
    Symbol.all.map (fun sign => (sign.spelling, .symbol sign)) ++ aliases

namespace Numeral

/-- Whether characters are ASCII digits with at most one point among them. -/
def isMagnitude (cs : List Char) : Bool :=
  cs.any Char.isDigit && cs.all (fun c => c.isDigit || c == '.') && cs.count '.' ≤ 1

/-- Whether a text is a numeral, with a minus of any kind before it or without one. -/
def isNumeral : List Char → Bool
  | c :: cs => if Pattern.isMinus c then isMagnitude cs else isMagnitude (c :: cs)
  | [] => false

/-- A numeral with the common minus in the place of the other one. -/
def withHyphen : List Char → List Char
  | '−' :: cs => '-' :: cs
  | cs => cs

/-- Either minus makes a number negative. -/
theorem read_withHyphen (cs : List Char) : read (withHyphen cs) = read cs := by
  unfold withHyphen
  split
  · have hhyphen : ('-'.isDigit || '-' == '.') = false := by decide
    have hminus : ('−'.isDigit || '−' == '.') = false := by decide
    simp only [read, hhyphen, hminus, Bool.false_eq_true, if_false]
  · rfl

end Numeral

/-- The lexeme that a text is: a word or a sign that is spelled so, a numeral, or a name. -/
def Lexeme.ofText (cs : List Char) : Lexeme :=
  match spellings.lookup cs with
  | some l => l
  | none =>
    if Numeral.isNumeral cs then .number (Numeral.read (Numeral.withHyphen cs))
    else .identifier (String.ofList cs)

namespace Scan

open Pattern Lexeme

variable {cs : List Char} {n : Nat} {l : Lexeme}

theorem ofText_spelled (h : spellings.lookup cs = some l) : ofText cs = l := by
  rw [ofText, h]

theorem mem_of_lookup {table : List (List Char × Lexeme)} (h : table.lookup cs = some l) :
    (cs, l) ∈ table := by
  obtain ⟨before, after, heq, -⟩ := List.lookup_eq_some_iff.1 h
  rw [heq]
  exact List.mem_append_right _ List.mem_cons_self

/-! ## Words and signs -/

/-- The characters that a pattern of a table of the scanner asks for. -/
def spelling? : Pattern → Option (List Char)
  | .word spelling | .literal spelling => some spelling
  | _ => none

/-- Every pattern of a table asks for a spelling of its lexeme. -/
def Spelled (table : List (Pattern × Lexeme)) : Prop :=
  ∀ entry ∈ table, (spelling? entry.1).any (spellings.lookup · = some entry.2)

theorem words_spelling : Spelled words := by
  unfold Spelled
  decide

theorem symbols_spelling : Spelled symbols := by
  unfold Spelled
  decide

theorem take_positiveLength? {p : Pattern} {spelling : List Char} (hp : spelling? p = some spelling)
    (h : p.positiveLength? cs = some n) : cs.take n = spelling := by
  have htake {k : Nat} (hspelling : spelling <+: cs) (hk : spelling.length = k) :
      cs.take k = spelling := by
    rw [← hk]
    exact (List.prefix_iff_eq_take.1 hspelling).symm
  rw [positiveLength?, Option.filter_eq_some_iff] at h
  replace h := h.1
  cases p with
  | word s =>
    cases hp
    rw [matchLength?] at h
    split at h
    · next hs => exact htake hs.1 (Option.some.inj h)
    · cases h
  | literal s =>
    cases hp
    rw [matchLength?] at h
    split at h
    · next hs => exact htake hs (Option.some.inj h)
    · cases h
  | run ok => cases hp
  | oneOf chars => cases hp
  | numeral signed => cases hp
  | either first second => cases hp

/-- What a table finds is the lexeme of its text. -/
theorem firstAt?_ofText {table : List (Pattern × Lexeme)} (htable : Spelled table)
    (h : firstAt? cs table = some (l, n)) : ofText (cs.take n) = l := by
  induction table with
  | nil => cases h
  | cons entry others ih =>
    obtain ⟨pattern, lexeme⟩ := entry
    rw [firstAt?] at h
    split at h
    · next k hk =>
      cases h
      obtain ⟨spelling, hspelling, hlookup⟩ :=
        (Option.any_eq_true _ _).1 (htable _ List.mem_cons_self)
      rw [take_positiveLength? hspelling hk]
      exact ofText_spelled (of_decide_eq_true hlookup)
    · exact ih (fun entry hentry => htable entry (List.mem_cons_of_mem _ hentry)) h

/-! ## Numerals -/

/-- No spelling of a word or a sign has a digit in it. -/
theorem spellings_digit : ∀ entry ∈ spellings, entry.1.any Char.isDigit = false := by decide

theorem lookup_of_digit (h : cs.any Char.isDigit = true) : spellings.lookup cs = none := by
  cases hlookup : spellings.lookup cs with
  | none => rfl
  | some l => simp [spellings_digit _ (mem_of_lookup hlookup)] at h

/-- The characters that a numeral takes up, given whether a point and whether a digit came before. -/
theorem numeralLength?_take {point digit : Bool} (h : numeralLength? point digit cs = some n) :
    (digit || (cs.take n).any Char.isDigit) = true ∧
      (cs.take n).all (fun c => c.isDigit || c == '.') = true ∧
      (cs.take n).count '.' + point.toNat ≤ 1 := by
  have hpoint (b : Bool) : [].count '.' + b.toNat ≤ 1 := by cases b <;> decide
  fun_induction numeralLength? point digit cs generalizing n with
  | case1 =>
    cases h
    exact ⟨rfl, rfl, hpoint _⟩
  | case2 => cases h
  | case3 point digit c cs hd ih =>
    obtain ⟨k, hk, rfl⟩ := Option.map_eq_some_iff.1 h
    obtain ⟨-, hall, hcount⟩ := ih hk
    have hne : c ≠ '.' := by
      rintro rfl
      exact absurd hd (by decide)
    simp [hd, hall, hne, hcount]
  | case4 point digit c cs hd hp ih =>
    obtain ⟨k, hk, rfl⟩ := Option.map_eq_some_iff.1 h
    obtain ⟨hany, hall, hcount⟩ := ih hk
    simp only [Bool.and_eq_true, beq_iff_eq, Bool.not_eq_true'] at hp
    obtain ⟨rfl, rfl⟩ := hp
    simp_all
  | case5 =>
    cases h
    exact ⟨rfl, rfl, hpoint _⟩
  | case6 => cases h

theorem isMagnitude_take (h : numeralLength? false false cs = some n) :
    Numeral.isMagnitude (cs.take n) = true := by
  obtain ⟨hany, hall, hcount⟩ := numeralLength?_take h
  simp_all [Numeral.isMagnitude]

/-- A magnitude starts with a digit or a point. -/
theorem isMinus_of_isMagnitude {c : Char} (h : Numeral.isMagnitude (c :: cs) = true) :
    isMinus c = false := by
  simp only [Numeral.isMagnitude, List.all_cons, Bool.and_eq_true, Bool.or_eq_true] at h
  rcases h.1.2.1 with hdigit | hpoint
  · exact isMinus_of_isDigit hdigit
  · rw [beq_iff_eq] at hpoint
    rw [hpoint]
    decide

theorem isNumeral_of_isMagnitude (h : Numeral.isMagnitude cs = true) :
    Numeral.isNumeral cs = true := by
  cases cs with
  | nil => cases h
  | cons c cs => rwa [Numeral.isNumeral, isMinus_of_isMagnitude h, if_neg Bool.false_ne_true]

/-- What the pattern of numerals takes is a numeral. -/
theorem isNumeral_take {signed : Bool} (h : (Pattern.numeral signed).positiveLength? cs = some n) :
    Numeral.isNumeral (cs.take n) = true := by
  rw [positiveLength?, Option.filter_eq_some_iff] at h
  replace h := h.1
  rw [matchLength?] at h
  split at h
  · next hsign =>
    obtain ⟨k, hk, rfl⟩ := Option.map_eq_some_iff.1 h
    cases cs with
    | nil => simp at hsign
    | cons c cs =>
      simp only [List.head?_cons, Option.any_some, Bool.and_eq_true] at hsign
      rw [List.take_succ_cons, Numeral.isNumeral, if_pos hsign.2]
      exact isMagnitude_take hk
  · exact isNumeral_of_isMagnitude (isMagnitude_take h)

theorem any_isDigit_of_isNumeral (h : Numeral.isNumeral cs = true) :
    cs.any Char.isDigit = true := by
  cases cs with
  | nil => cases h
  | cons c cs =>
    rw [Numeral.isNumeral] at h
    split at h
    · simp only [Numeral.isMagnitude, Bool.and_eq_true] at h
      rw [List.any_cons, h.1.1, Bool.or_true]
    · simp only [Numeral.isMagnitude, Bool.and_eq_true] at h
      exact h.1.1

theorem ofText_numeral (h : Numeral.isNumeral cs = true) :
    ofText cs = .number (Numeral.read cs) := by
  rw [ofText, lookup_of_digit (any_isDigit_of_isNumeral h), h, if_pos rfl, Numeral.read_withHyphen]

/-! ## Names -/

/-- Every spelling is a reserved word or starts with a sign that starts no name. -/
theorem spellings_name : ∀ entry ∈ spellings, (firstAt? entry.1 words).isSome = true ∨
    entry.1.head?.any (fun c => !Text.isNameChar c || c == 'π' || c == '𝜋') = true := by
  decide +kernel

theorem lookup_of_isName (h : IsName cs) : spellings.lookup cs = none := by
  cases hlookup : spellings.lookup cs with
  | none => rfl
  | some l =>
    rcases spellings_name _ (mem_of_lookup hlookup) with hword | hsign
    · simp [h.word] at hword
    · obtain ⟨c, others, rfl⟩ := List.exists_cons_of_ne_nil h.ne_nil
      obtain ⟨-, -, hpi, hpi'⟩ := h.head c rfl
      have hc := h.chars c List.mem_cons_self
      simp [hc, hpi, hpi'] at hsign

/-- A name is no numeral: it starts with no digit, and no minus or point stands in names. -/
theorem isNumeral_of_isName (h : IsName cs) : Numeral.isNumeral cs = false := by
  obtain ⟨c, others, rfl⟩ := List.exists_cons_of_ne_nil h.ne_nil
  have hc := h.chars c List.mem_cons_self
  have hminus := isMinus_of_isNameChar hc
  have hpoint : (c == '.') = false := beq_eq_false_iff_ne.2 (ne_of_isNameChar hc (by decide))
  have hdigit := (h.head c rfl).1
  simp [Numeral.isNumeral, Numeral.isMagnitude, hminus, hpoint, hdigit]

theorem ofText_name (h : IsName cs) : ofText cs = .identifier (String.ofList cs) := by
  rw [ofText, lookup_of_isName h, isNumeral_of_isName h, if_neg Bool.false_ne_true]

/-- The lexeme at the start of a text without leading blanks is that of the characters it takes
up. -/
theorem lexemeAt?_ofText {signed : Bool} (hblank : ∀ c ∈ cs.head?, Text.isBlank c = false)
    (h : lexemeAt? signed cs = some (l, n)) : ofText (cs.take n) = l := by
  simp only [lexemeAt?, Option.or_eq_some_iff, Option.map_eq_some_iff,
    Option.map_eq_none_iff] at h
  rcases h with h | ⟨hwords, ⟨k, hk, heq⟩ | ⟨hnumeral, h | ⟨hsymbols, k, hk, heq⟩⟩⟩
  · exact firstAt?_ofText words_spelling h
  · cases heq
    exact ofText_numeral (isNumeral_take hk)
  · exact firstAt?_ofText symbols_spelling h
  · cases heq
    exact ofText_name (isName_takeWhile hblank hwords hnumeral hsymbols hk)

end Scan

end Calculator
