import Calculator.Proofs.Number.ReadBack
import Calculator.Proofs.Scan.Rest

/-
  The lexeme that a spelling makes when other text follows it.  A reserved word is told by the whole
  run of letters it stands in (`firstAt?_reserved`), so it makes its token before anything but a letter
  or an underscore; a symbol does before anything but the signs that make a longer one, a numeral
  before anything but a digit or a point, and a name before the end of a run of name characters.
  Conversely every name and number the scanner gives is of this kind (`lexemeAt?_legal`).
-/

namespace Calculator

/-- The reserved words and their aliases. -/
def Lexeme.reserved : List (List Char × Lexeme) :=
  Keyword.all.map (fun word => (word.spelling, .keyword word)) ++
    [(['E'], .keyword .e), (['m', 'o', 'd'], .symbol .mod)]

namespace Scan

open Calculator.Lexeme

/-! ## Runs of characters -/

section Runs

variable {ok : Char → Bool} {word : List Char}

theorem takeWhile_append (hword : ∀ c ∈ word, ok c = true) (rest : List Char)
    (hrest : ∀ c ∈ rest.head?, ok c = false) : (word ++ rest).takeWhile ok = word := by
  rw [List.takeWhile_append_of_pos hword]
  cases rest with
  | nil => simp
  | cons c rest => simp [hrest c rfl]

theorem prefix_append_iff (hword : ∀ c ∈ word, ok c = true) (cs : List Char) :
    (word <+: cs ∧ ∀ c ∈ (cs.drop word.length).head?, ok c = false) ↔ cs.takeWhile ok = word := by
  constructor
  · rintro ⟨⟨rest, rfl⟩, h⟩
    rw [List.drop_left] at h
    exact takeWhile_append hword rest h
  · intro h
    have hcs : word ++ cs.dropWhile ok = cs := by
      rw [← h, List.takeWhile_append_dropWhile]
    refine ⟨⟨_, hcs⟩, ?_⟩
    rw [← hcs, List.drop_left]
    intro c hc
    have hne : cs.dropWhile ok ≠ [] := fun hnil => by simp [hnil] at hc
    have hhead := List.head_dropWhile_not ok hne
    rw [List.head?_eq_some_head hne, Option.mem_some] at hc
    rw [← hc, hhead]

end Runs

/-! ## Reserved words -/

/-- Whether a character makes a word longer. -/
def isWordChar (c : Char) : Bool := Text.isLetter c || c == '_'

/-- The run of letters and underscores that a text starts with. -/
abbrev letters (cs : List Char) : List Char := cs.takeWhile isWordChar

theorem isNameChar_of_isWordChar {c : Char} (h : isWordChar c = true) : Text.isNameChar c = true := by
  rw [isWordChar, Bool.or_eq_true] at h
  rw [Text.isNameChar, Bool.or_eq_true]
  exact h.imp_left Text.isAlphanumeric_of_isLetter

/-- The run of letters at the start of a text is within its run of name characters. -/
theorem takeWhile_isWordChar (cs : List Char) :
    (cs.takeWhile Text.isNameChar).takeWhile isWordChar = cs.takeWhile isWordChar := by
  rw [List.takeWhile_takeWhile]
  congr 1
  funext c
  rw [Bool.eq_iff_iff, decide_eq_true_eq]
  exact and_iff_left_of_imp isNameChar_of_isWordChar

theorem matchLength?_word {spelling : List Char} (h : ∀ c ∈ spelling, isWordChar c = true)
    (cs : List Char) : (Pattern.word spelling).matchLength? cs =
      if cs.takeWhile isWordChar = spelling then some spelling.length else none := by
  rw [Pattern.matchLength?]
  refine if_congr ?_ rfl rfl
  rw [← prefix_append_iff h cs]
  refine and_congr_right fun _ => ?_
  cases (cs.drop spelling.length).head? with
  | none => simp
  | some c => simp [isWordChar]

theorem keyword_isWordChar (w : Keyword) : ∀ c ∈ w.spelling, isWordChar c = true := by
  rw [← List.all_eq_true]
  cases w <;> rfl

theorem firstAt?_congr {cs cs' : List Char} {table : List (Pattern × Lexeme)}
    (h : ∀ entry ∈ table, entry.1.positiveLength? cs = entry.1.positiveLength? cs') :
    firstAt? cs table = firstAt? cs' table := by
  induction table with
  | nil => rfl
  | cons entry others ih =>
    obtain ⟨pattern, lexeme⟩ := entry
    rw [firstAt?, firstAt?, h (pattern, lexeme) List.mem_cons_self,
      ih fun entry hentry => h entry (List.mem_cons_of_mem _ hentry)]

theorem reserved_isWordChar :
    ∀ entry ∈ reserved, entry.1 ≠ [] ∧ ∀ c ∈ entry.1, isWordChar c = true := by
  intro entry h
  rw [reserved, List.mem_append, List.mem_map] at h
  rcases h with ⟨word, -, rfl⟩ | h
  · exact ⟨by cases word <;> exact List.cons_ne_nil _ _, keyword_isWordChar word⟩
  · simp only [List.mem_cons, List.not_mem_nil, or_false] at h
    rcases h with rfl | rfl
    · exact ⟨List.cons_ne_nil _ _, List.all_eq_true.1 rfl⟩
    · exact ⟨List.cons_ne_nil _ _, List.all_eq_true.1 rfl⟩

theorem words_eq : words = reserved.map fun entry => (.word entry.1, entry.2) := rfl

/-- A table of words finds the word that is the whole run of letters. -/
theorem firstAt?_lookup {table : List (List Char × Lexeme)}
    (h : ∀ entry ∈ table, entry.1 ≠ [] ∧ ∀ c ∈ entry.1, isWordChar c = true) (cs : List Char) :
    firstAt? cs (table.map fun entry => (.word entry.1, entry.2)) =
      (table.lookup (letters cs)).map fun l => (l, (letters cs).length) := by
  induction table with
  | nil => rfl
  | cons entry others ih =>
    obtain ⟨spelling, lexeme⟩ := entry
    obtain ⟨⟨hne, hchars⟩, hothers⟩ := List.forall_mem_cons.1 h
    rw [List.map_cons, firstAt?, Pattern.positiveLength?, matchLength?_word hchars,
      List.lookup_cons]
    by_cases hrun : letters cs = spelling
    · have hlength : 0 < spelling.length := List.length_pos_iff.2 hne
      simp [hrun, Option.filter, hlength]
    · have hbeq : (letters cs == spelling) = false := beq_eq_false_iff_ne.2 hrun
      rw [if_neg hrun, hbeq]
      exact ih hothers

/-- A text starts with a reserved word just when its run of letters is one. -/
theorem firstAt?_reserved (cs : List Char) : firstAt? cs words =
    (reserved.lookup (letters cs)).map fun l => (l, (letters cs).length) := by
  rw [words_eq]
  exact firstAt?_lookup reserved_isWordChar cs

/-- Which reserved word a text starts with depends on its leading run of letters only. -/
theorem firstAt?_words {cs cs' : List Char} (h : letters cs = letters cs') :
    firstAt? cs words = firstAt? cs' words := by
  rw [firstAt?_reserved, firstAt?_reserved, h]

theorem firstAt?_words_nil : firstAt? [] words = none := by decide

theorem firstAt?_words_of_head {cs : List Char} (h : ∀ c ∈ cs.head?, isWordChar c = false) :
    firstAt? cs words = none := by
  have hrun : cs.takeWhile isWordChar = [].takeWhile isWordChar :=
    takeWhile_append (List.forall_mem_nil _) cs h
  rw [firstAt?_words hrun, firstAt?_words_nil]

theorem firstAt?_keyword (w : Keyword) :
    firstAt? w.spelling words = some (.keyword w, w.spelling.length) := by
  cases w <;> decide

/-- A reserved word that no letter follows makes its token. -/
theorem lexemeAt?_keyword (signed : Bool) (w : Keyword) {rest : List Char}
    (h : ∀ c ∈ rest.head?, isWordChar c = false) :
    lexemeAt? signed (w.spelling ++ rest) = some (.keyword w, w.spelling.length) := by
  have hrun : (w.spelling ++ rest).takeWhile isWordChar = w.spelling.takeWhile isWordChar := by
    rw [takeWhile_append (keyword_isWordChar w) rest h]
    exact (takeWhile_append (keyword_isWordChar w) [] nofun).symm.trans
      (congrArg _ (List.append_nil _))
  rw [lexemeAt?, firstAt?_words hrun, firstAt?_keyword]
  rfl

/-! ## Symbols -/

/-- Whether a pattern can match a text that starts with the character. -/
def opens (c : Char) : Pattern → Bool
  | .word spelling | .literal spelling => spelling.head? == some c
  | _ => true

theorem positiveLength?_of_not_opens {c : Char} {p : Pattern} (h : opens c p = false)
    (cs : List Char) : p.positiveLength? (c :: cs) = none := by
  have hstart {spelling : List Char} (h : (spelling.head? == some c) = false)
      (hp : spelling <+: c :: cs) : spelling = [] := by
    cases spelling with
    | nil => rfl
    | cons d spelling =>
      rw [(List.cons_prefix_cons.1 hp).1] at h
      simp at h
  cases p with
  | word spelling =>
    rw [Pattern.positiveLength?, Pattern.matchLength?]
    split
    · next hs => simp [hstart h hs.1, Option.filter]
    · rfl
  | literal spelling =>
    rw [Pattern.positiveLength?, Pattern.matchLength?]
    split
    · next hs => simp [hstart h hs, Option.filter]
    · rfl
  | run ok => cases h
  | oneOf chars => cases h
  | numeral signed => cases h
  | either first second => cases h

theorem firstAt?_of_not_opens {c : Char} {table : List (Pattern × Lexeme)}
    (h : (table.all fun entry => !opens c entry.1) = true) (cs : List Char) :
    firstAt? (c :: cs) table = none := by
  induction table with
  | nil => rfl
  | cons entry others ih =>
    obtain ⟨pattern, lexeme⟩ := entry
    rw [List.all_cons, Bool.and_eq_true, Bool.not_eq_true'] at h
    rw [firstAt?, positiveLength?_of_not_opens h.1]
    exact ih h.2

/-- A text that starts with no digit and no point, nor a minus that may belong to a numeral,
starts with no numeral. -/
theorem positiveLength?_numeral_none {signed : Bool} {c : Char} (cs : List Char)
    (hdigit : c.isDigit = false) (hpoint : c ≠ '.') (hminus : (signed && Pattern.isMinus c) = false) :
    (Pattern.numeral signed).positiveLength? (c :: cs) = none := by
  have hnone : Pattern.numeralLength? false false (c :: cs) = none := by
    simp [Pattern.numeralLength?, hdigit, hpoint]
  rw [Pattern.positiveLength?, Pattern.matchLength?, List.head?_cons, Option.any_some, hminus,
    if_neg Bool.false_ne_true, hnone]
  rfl

theorem symbol_spelling (s : Symbol) : ∃ c cs, s.spelling = c :: cs ∧ c.isDigit = false ∧ c ≠ '.' ∧
    (Pattern.isMinus c = true → s = .sub) ∧ (words.all fun entry => !opens c entry.1) = true := by
  cases s <;> exact ⟨_, _, rfl, by decide, by decide, by decide, by decide⟩

/-- Whether a symbol starts a longer one. -/
def grows : Symbol → Bool
  | .assign | .less | .greater => true
  | _ => false

/-- A symbol makes its token before any text that does not make it a longer symbol. -/
theorem firstAt?_symbol (s : Symbol) {rest : List Char}
    (h : grows s = true → ∀ c ∈ rest.head?, c ≠ '=' ∧ c ≠ '>') :
    firstAt? (s.spelling ++ rest) symbols = some (.symbol s, s.spelling.length) := by
  have hstart (hs : grows s = true) : ¬ ['='] <+: rest ∧ ¬ ['>'] <+: rest := by
    constructor <;> rintro ⟨others, rfl⟩
    · exact (h hs '=' rfl).1 rfl
    · exact (h hs '>' rfl).2 rfl
  -- Only the symbols that start a longer one ask what follows them.
  cases s
  case assign =>
    obtain ⟨hequal, hgreater⟩ := hstart rfl
    simp [symbols, Symbol.all, Symbol.spelling, firstAt?, Pattern.positiveLength?,
      Pattern.matchLength?, Option.filter, hequal, hgreater]
  case less =>
    obtain ⟨hequal, -⟩ := hstart rfl
    simp [symbols, Symbol.all, Symbol.spelling, firstAt?, Pattern.positiveLength?,
      Pattern.matchLength?, Option.filter, hequal]
  case greater =>
    obtain ⟨hequal, -⟩ := hstart rfl
    simp [symbols, Symbol.all, Symbol.spelling, firstAt?, Pattern.positiveLength?,
      Pattern.matchLength?, Option.filter, hequal]
  all_goals
    simp [symbols, Symbol.all, Symbol.spelling, firstAt?, Pattern.positiveLength?,
      Pattern.matchLength?, Option.filter]

theorem lexemeAt?_symbol {signed : Bool} (s : Symbol) {rest : List Char}
    (hsigned : s = .sub → signed = false)
    (h : grows s = true → ∀ c ∈ rest.head?, c ≠ '=' ∧ c ≠ '>') :
    lexemeAt? signed (s.spelling ++ rest) = some (.symbol s, s.spelling.length) := by
  obtain ⟨c, cs, heq, hdigit, hpoint, hminus, hwords⟩ := symbol_spelling s
  have hnumeral : (signed && Pattern.isMinus c) = false := by
    cases hm : Pattern.isMinus c with
    | true => rw [hsigned (hminus hm), Bool.false_and]
    | false => rw [Bool.and_false]
  have hsymbol := firstAt?_symbol s h
  rw [heq, List.cons_append] at hsymbol ⊢
  rw [lexemeAt?, firstAt?_of_not_opens hwords, hsymbol,
    positiveLength?_numeral_none _ hdigit hpoint hnumeral]
  rfl

/-! ## Numerals -/

/-- What may follow a name or a numeral that it does not make longer. -/
def Ends (rest : List Char) : Prop := ∀ c ∈ rest.head?, Text.isNameChar c = false ∧ c ≠ '.'

theorem Ends.nil : Ends [] := nofun

theorem Ends.cons {c : Char} (h : Text.isNameChar c = false) (hpoint : c ≠ '.') (cs : List Char) :
    Ends (c :: cs) := by
  rintro _ ⟨⟩
  exact ⟨h, hpoint⟩

theorem isNameChar_of_isDigit {c : Char} (h : c.isDigit = true) : Text.isNameChar c = true := by
  have hrange : 0x30 ≤ c.toNat ∧ c.toNat ≤ 0x39 := by
    simpa [Char.isDigit, UInt32.le_iff_toNat_le] using h
  have hnumeric : Text.isNumeric c = true := by
    have hlow : ¬ c.toNat < 0x30 := by omega
    rw [Text.isNumeric, Text.numericRanges, Text.CharRanges.has, if_neg hlow,
      decide_eq_true hrange.2, Bool.true_or]
  simp [Text.isNameChar, Text.isAlphanumeric, hnumeric]

theorem numeralLength?_ends {point : Bool} {cs : List Char} (h : Ends cs) :
    Pattern.numeralLength? point true cs = some 0 := by
  cases cs with
  | nil => rfl
  | cons c cs =>
    obtain ⟨hname, hpoint⟩ := h c rfl
    have hdigit : ¬ c.isDigit = true := fun hd => by simp [isNameChar_of_isDigit hd] at hname
    simp [Pattern.numeralLength?, hdigit, hpoint]

theorem numeralLength?_digits {whole : List Char} (h : ∀ c ∈ whole, c.isDigit) (point : Bool)
    (cs : List Char) : Pattern.numeralLength? point true (whole ++ cs) =
      (Pattern.numeralLength? point true cs).map (· + whole.length) := by
  induction whole with
  | nil => simp
  | cons c whole ih =>
    have hc : c.isDigit = true := h c List.mem_cons_self
    rw [List.cons_append, Pattern.numeralLength?, if_pos hc,
      ih fun c hc => h c (List.mem_cons_of_mem _ hc), Option.map_map]
    congr 1

/-- A magnitude is as long as the numeral that it starts. -/
theorem numeralLength?_magnitude {cs rest : List Char} (h : Numeral.IsMagnitude cs)
    (hrest : Ends rest) : Pattern.numeralLength? false false (cs ++ rest) = some cs.length := by
  obtain ⟨whole, fraction, hne, hwhole, hfraction, hcs⟩ := h
  obtain ⟨c, others, rfl⟩ := List.exists_cons_of_ne_nil hne
  have hc : c.isDigit = true := hwhole c List.mem_cons_self
  have hothers : ∀ c ∈ others, c.isDigit := fun c hc => hwhole c (List.mem_cons_of_mem _ hc)
  rcases hcs with rfl | rfl
  · rw [List.cons_append, Pattern.numeralLength?, if_pos hc, numeralLength?_digits hothers,
      numeralLength?_ends hrest]
    simp
  · have hpoint : Pattern.numeralLength? false true ('.' :: (fraction ++ rest)) =
        some (fraction.length + 1) := by
      rw [Pattern.numeralLength?, if_neg (by decide), if_pos (by decide),
        numeralLength?_digits hfraction, numeralLength?_ends hrest]
      simp
    rw [List.append_assoc, List.cons_append, Pattern.numeralLength?, if_pos hc,
      numeralLength?_digits hothers, List.cons_append, hpoint]
    simp
    omega

theorem magnitude_head {cs : List Char} (h : Numeral.IsMagnitude cs) :
    ∃ c others, cs = c :: others ∧ c.isDigit = true := by
  obtain ⟨whole, fraction, hne, hwhole, -, hcs⟩ := h
  obtain ⟨c, others, rfl⟩ := List.exists_cons_of_ne_nil hne
  have hc : c.isDigit = true := hwhole c List.mem_cons_self
  rcases hcs with rfl | rfl
  · exact ⟨c, others, rfl, hc⟩
  · exact ⟨c, _, rfl, hc⟩

theorem isWordChar_of_isDigit {c : Char} (h : c.isDigit = true) : isWordChar c = false := by
  have hrange : 0x30 ≤ c.toNat ∧ c.toNat ≤ 0x39 := by
    simpa [Char.isDigit, UInt32.le_iff_toNat_le] using h
  have hletter : Text.isLetter c = false := by
    have hlow : c.toNat < 0x41 := by omega
    rw [Text.isLetter, Text.letterRanges, Text.CharRanges.has, if_pos hlow]
  have hunderscore : ¬ c = '_' := by
    rintro rfl
    exact absurd h (by decide)
  simp [isWordChar, hletter, hunderscore]

theorem isMinus_of_isDigit {c : Char} (h : c.isDigit = true) : Pattern.isMinus c = false := by
  rw [Pattern.isMinus, Bool.or_eq_false_iff]
  constructor <;>
  · rw [beq_eq_false_iff_ne]
    rintro rfl
    exact absurd h (by decide)

/-- A magnitude makes its token before anything that ends it. -/
theorem lexemeAt?_magnitude (signed : Bool) {cs rest : List Char} (h : Numeral.IsMagnitude cs)
    (hrest : Ends rest) :
    lexemeAt? signed (cs ++ rest) = some (.number (Numeral.read cs), cs.length) := by
  obtain ⟨c, others, rfl, hc⟩ := magnitude_head h
  have hwords : firstAt? (c :: others ++ rest) words = none :=
    firstAt?_words_of_head (by rintro _ ⟨⟩; exact isWordChar_of_isDigit hc)
  have hnumeral : (Pattern.numeral signed).positiveLength? (c :: others ++ rest) =
      some (c :: others).length := by
    have hlength := numeralLength?_magnitude h hrest
    rw [Pattern.positiveLength?, Pattern.matchLength?, List.cons_append, List.head?_cons,
      Option.any_some, isMinus_of_isDigit hc, Bool.and_false, if_neg Bool.false_ne_true,
      ← List.cons_append, hlength]
    simp [Option.filter]
  rw [lexemeAt?, hwords, hnumeral, Option.none_or, Option.map_some, List.take_left]
  rfl

/-- So does a magnitude after a minus, where a minus may belong to a numeral. -/
theorem lexemeAt?_negative {cs rest : List Char} (h : Numeral.IsMagnitude cs) (hrest : Ends rest) :
    lexemeAt? true ('-' :: cs ++ rest) =
      some (.number (Numeral.read ('-' :: cs)), ('-' :: cs).length) := by
  have hwords : firstAt? ('-' :: cs ++ rest) words = none :=
    firstAt?_words_of_head (by rintro _ ⟨⟩; decide)
  have hnumeral : (Pattern.numeral true).positiveLength? ('-' :: cs ++ rest) =
      some ('-' :: cs).length := by
    rw [Pattern.positiveLength?, Pattern.matchLength?, List.cons_append, List.head?_cons,
      if_pos (by decide), List.tail_cons, numeralLength?_magnitude h hrest]
    simp [Option.filter]
  rw [lexemeAt?, hwords, hnumeral, Option.none_or, Option.map_some, List.take_left]
  rfl

/-! ## Names -/

/-- What the scanner reads as a name wherever it stands alone. -/
structure IsName (cs : List Char) : Prop where
  ne_nil : cs ≠ []
  chars : ∀ c ∈ cs, Text.isNameChar c = true
  /-- No reserved word starts it. -/
  word : firstAt? cs words = none
  /-- Nor does a digit, a blank or a sign that is a letter. -/
  head : ∀ c ∈ cs.head?, c.isDigit = false ∧ Text.isBlank c = false ∧ c ≠ 'π' ∧ c ≠ '𝜋'

/-- Every pattern of the table of symbols starts with a sign that starts no name. -/
theorem symbols_spelled : ∀ entry ∈ symbols, ∃ (c : Char) (cs : List Char),
    entry.1 = .literal (c :: cs) ∧ (Text.isNameChar c = false ∨ c = 'π' ∨ c = '𝜋') := by
  intro entry h
  rw [symbols, List.mem_append, List.mem_map] at h
  rcases h with ⟨sign, -, rfl⟩ | h
  · cases sign <;> exact ⟨_, _, rfl, .inl (by decide)⟩
  · simp only [List.mem_cons, List.not_mem_nil, or_false] at h
    rcases h with rfl | rfl | rfl | rfl | rfl
    · exact ⟨_, _, rfl, .inr (.inl rfl)⟩
    · exact ⟨_, _, rfl, .inr (.inr rfl)⟩
    · exact ⟨_, _, rfl, .inl (by decide)⟩
    · exact ⟨_, _, rfl, .inl (by decide)⟩
    · exact ⟨_, _, rfl, .inl (by decide +kernel)⟩

theorem firstAt?_symbols_of_name {c : Char} (hname : Text.isNameChar c = true) (hpi : c ≠ 'π')
    (hpi' : c ≠ '𝜋') (cs : List Char) : firstAt? (c :: cs) symbols = none := by
  refine firstAt?_of_not_opens (List.all_eq_true.2 fun entry hentry => ?_) cs
  obtain ⟨d, ds, heq, hd⟩ := symbols_spelled entry hentry
  have hne : d ≠ c := by
    rintro rfl
    rcases hd with hd | hd | hd
    · simp [hname] at hd
    · exact hpi hd
    · exact hpi' hd
  simp [heq, opens, hne]

theorem ne_of_isNameChar {c d : Char} (h : Text.isNameChar c = true)
    (hd : Text.isNameChar d = false) : c ≠ d := by
  rintro rfl
  simp [h] at hd

theorem isMinus_of_isNameChar {c : Char} (h : Text.isNameChar c = true) :
    Pattern.isMinus c = false := by
  rw [Pattern.isMinus, Bool.or_eq_false_iff, beq_eq_false_iff_ne, beq_eq_false_iff_ne]
  exact ⟨ne_of_isNameChar h (by decide), ne_of_isNameChar h (by decide +kernel)⟩

/-- No numeral starts with a character of names but a digit. -/
theorem positiveLength?_numeral_of_name {c : Char} (h : Text.isNameChar c = true)
    (hdigit : c.isDigit = false) (signed : Bool) (cs : List Char) :
    (Pattern.numeral signed).positiveLength? (c :: cs) = none :=
  positiveLength?_numeral_none cs hdigit (ne_of_isNameChar h (by decide))
    (by rw [isMinus_of_isNameChar h, Bool.and_false])

/-- A name makes its token before anything that ends it. -/
theorem lexemeAt?_name (signed : Bool) {cs rest : List Char} (h : IsName cs) (hrest : Ends rest) :
    lexemeAt? signed (cs ++ rest) = some (.identifier (String.ofList cs), cs.length) := by
  obtain ⟨c, others, rfl⟩ := List.exists_cons_of_ne_nil h.ne_nil
  have hc : Text.isNameChar c = true := h.chars c List.mem_cons_self
  obtain ⟨hdigit, -, hpi, hpi'⟩ := h.head c rfl
  have hrun : (c :: others ++ rest).takeWhile Text.isNameChar = c :: others :=
    takeWhile_append h.chars rest fun c hc => (hrest c hc).1
  have hwords : firstAt? (c :: others ++ rest) words = none := by
    have hword := takeWhile_isWordChar (c :: others ++ rest)
    rw [hrun] at hword
    rw [firstAt?_words hword.symm, h.word]
  have hnumeral : (Pattern.numeral signed).positiveLength? (c :: others ++ rest) = none :=
    positiveLength?_numeral_of_name hc hdigit signed _
  have hname : (Pattern.run Text.isNameChar).positiveLength? (c :: others ++ rest) =
      some (c :: others).length := by
    rw [Pattern.positiveLength?, Pattern.matchLength?, hrun]
    simp [Option.filter]
  rw [lexemeAt?, hwords, hnumeral, List.cons_append, firstAt?_symbols_of_name hc hpi hpi',
    ← List.cons_append, hname, Option.map_some, List.take_left]
  rfl

/-! ## What the scanner gives -/

/-- What the lexemes of a text are: names that can be read again, and numbers. -/
def Legal : Lexeme → Prop
  | .identifier name => IsName name.toList
  | .number x => x.IsNumber
  | _ => True

theorem firstAt?_mem {cs : List Char} {table : List (Pattern × Lexeme)} {l : Lexeme} {n : Nat}
    (h : firstAt? cs table = some (l, n)) : l ∈ table.map (·.2) := by
  induction table with
  | nil => cases h
  | cons entry others ih =>
    rw [firstAt?] at h
    split at h
    · cases h
      exact List.mem_cons_self
    · exact List.mem_cons_of_mem _ (ih h)

theorem legal_of_mem_words {l : Lexeme} (h : l ∈ words.map (·.2)) : Legal l := by
  rw [words, List.map_append, List.mem_append, List.map_map, List.mem_map] at h
  rcases h with ⟨word, -, rfl⟩ | h
  · trivial
  · simp only [List.map_cons, List.map_nil, List.mem_cons, List.not_mem_nil, or_false] at h
    rcases h with rfl | rfl <;> trivial

theorem legal_of_mem_symbols {l : Lexeme} (h : l ∈ symbols.map (·.2)) : Legal l := by
  rw [symbols, List.map_append, List.mem_append, List.map_map, List.mem_map] at h
  rcases h with ⟨sign, -, rfl⟩ | h
  · trivial
  · simp only [List.map_cons, List.map_nil, List.mem_cons, List.not_mem_nil, or_false] at h
    rcases h with rfl | rfl | rfl | rfl | rfl <;> trivial

theorem firstAt?_none {cs : List Char} {table : List (Pattern × Lexeme)}
    (h : firstAt? cs table = none) : ∀ entry ∈ table, entry.1.positiveLength? cs = none := by
  induction table with
  | nil => nofun
  | cons entry others ih =>
    obtain ⟨pattern, lexeme⟩ := entry
    rw [firstAt?] at h
    split at h
    · cases h
    · next hnone => exact List.forall_mem_cons.2 ⟨hnone, ih h⟩

theorem firstAt?_ne_none {c : Char} {cs : List Char} {lexeme : Lexeme}
    (hmem : (.literal [c], lexeme) ∈ symbols) : firstAt? (c :: cs) symbols ≠ none := by
  intro h
  have hnone := firstAt?_none h _ hmem
  simp [Pattern.positiveLength?, Pattern.matchLength?, Option.filter] at hnone

theorem numeralLength?_isSome (point : Bool) (cs : List Char) :
    (Pattern.numeralLength? point true cs).isSome = true := by
  induction cs generalizing point with
  | nil => rfl
  | cons c cs ih =>
    rw [Pattern.numeralLength?]
    split
    · rw [Option.isSome_map, ih]
    split
    · rw [Option.isSome_map, ih]
    · rfl

/-- A text that starts with a digit starts with a numeral. -/
theorem not_isDigit_of_numeral_none {signed : Bool} {c : Char} {cs : List Char}
    (h : (Pattern.numeral signed).positiveLength? (c :: cs) = none) : c.isDigit = false := by
  rw [← Bool.not_eq_true]
  intro hc
  obtain ⟨n, hn⟩ := Option.isSome_iff_exists.1 (numeralLength?_isSome false cs)
  rw [Pattern.positiveLength?, Pattern.matchLength?, List.head?_cons, Option.any_some,
    isMinus_of_isDigit hc, Bool.and_false, if_neg Bool.false_ne_true, Pattern.numeralLength?,
    if_pos hc, hn] at h
  simp [Option.filter] at h

/-- The run of name characters after no blank, where no word, numeral or symbol starts, is a
name. -/
theorem isName_takeWhile {signed : Bool} {cs : List Char} {n : Nat}
    (hblank : ∀ c ∈ cs.head?, Text.isBlank c = false) (hwords : firstAt? cs words = none)
    (hnumeral : (Pattern.numeral signed).positiveLength? cs = none)
    (hsymbols : firstAt? cs symbols = none)
    (hrun : (Pattern.run Text.isNameChar).positiveLength? cs = some n) : IsName (cs.take n) := by
  rw [Pattern.positiveLength?, Pattern.matchLength?, Option.filter_eq_some_iff, Option.some_inj,
    decide_eq_true_eq] at hrun
  obtain ⟨hn, hpos⟩ := hrun
  have htake : cs.take n = cs.takeWhile Text.isNameChar := by
    rw [← hn]
    exact (List.prefix_iff_eq_take.1 (List.takeWhile_prefix _)).symm
  have hword : (cs.takeWhile Text.isNameChar).takeWhile isWordChar = cs.takeWhile isWordChar :=
    takeWhile_isWordChar cs
  have hne : cs.takeWhile Text.isNameChar ≠ [] := by
    intro hnil
    rw [hnil, List.length_nil] at hn
    omega
  rw [htake]
  refine ⟨hne, List.all_eq_true.1 List.all_takeWhile, by rw [firstAt?_words hword, hwords], ?_⟩
  cases cs with
  | nil => exact absurd rfl hne
  | cons c cs =>
    have hc : Text.isNameChar c = true := by
      by_contra hc
      exact hne (List.takeWhile_cons_of_neg hc)
    rw [List.takeWhile_cons_of_pos hc]
    rintro _ ⟨⟩
    refine ⟨not_isDigit_of_numeral_none hnumeral, hblank c rfl, ?_, ?_⟩
    · rintro rfl
      have hpi : (.literal ['π'], .keyword .pi) ∈ symbols := by simp [symbols]
      exact firstAt?_ne_none hpi hsymbols
    · rintro rfl
      have hpi : (.literal ['𝜋'], .keyword .pi) ∈ symbols := by simp [symbols]
      exact firstAt?_ne_none hpi hsymbols

/-- Every lexeme that a text without leading blanks starts with is legal. -/
theorem lexemeAt?_legal {signed : Bool} {cs : List Char} {l : Lexeme} {n : Nat}
    (hblank : ∀ c ∈ cs.head?, Text.isBlank c = false) (h : lexemeAt? signed cs = some (l, n)) :
    Legal l := by
  simp only [lexemeAt?, Option.or_eq_some_iff, Option.map_eq_some_iff,
    Option.map_eq_none_iff] at h
  rcases h with h | ⟨hwords, ⟨k, hk, heq⟩ | ⟨hnumeral, h | ⟨hsymbols, k, hk, heq⟩⟩⟩
  · exact legal_of_mem_words (firstAt?_mem h)
  · cases heq
    exact Numeral.read_isNumber _
  · exact legal_of_mem_symbols (firstAt?_mem h)
  · cases heq
    rw [Legal, String.toList_ofList]
    exact isName_takeWhile hblank hwords hnumeral hsymbols hk

theorem skipped_head (cs : List Char) : ∀ c ∈ (skipped cs).head?, Text.isBlank c = false := by
  intro c hc
  have hne : skipped cs ≠ [] := fun hnil => by simp [hnil] at hc
  have hhead := List.head_dropWhile_not Text.isBlank hne
  rw [List.head?_eq_some_head hne, Option.mem_some] at hc
  rw [← hc, hhead]

/-- Every token of a text is legal. -/
theorem tokensFrom_legal (previous : Option Lexeme) (place : Location) {c : Cursor} (count : Nat)
    (hc : c.offset ≤ c.text.size) :
    ∀ t ∈ (tokensFrom previous place c count).1, Legal t.lexeme := by
  induction count generalizing previous place c with
  | zero => exact List.forall_mem_nil _
  | succ count ih =>
    obtain ⟨hskip, hsize⟩ := chomp_blank c hc
    rw [tokensFrom]
    generalize c.chomp (.run Text.isBlank) = c' at *
    split
    · exact List.forall_mem_nil _
    dsimp only
    rw [lexeme?_eq _ c' hsize]
    cases h : lexemeAt? (allowsSign previous) c'.rest with
    | none => exact List.forall_mem_nil _
    | some found =>
      obtain ⟨l, n⟩ := found
      obtain ⟨-, hn⟩ := lexemeAt?_pos h
      have hlegal : Legal l := lexemeAt?_legal (by rw [hskip]; exact skipped_head _) h
      have hlength : c'.rest.length = c'.text.size - c'.offset := by
        rw [Cursor.rest_eq, List.length_drop, Array.length_toList]
      refine List.forall_mem_cons.2 ⟨hlegal, ih _ _ ?_⟩
      dsimp only
      omega

theorem tokenize_legal {source : String} {tokens : List Token}
    (h : tokenize (.ofString source) = .ok tokens) : ∀ t ∈ tokens, Legal t.lexeme := by
  obtain ⟨hfault, rfl⟩ := tokenize_eq_ok.1 h
  refine List.forall_mem_append.2 ⟨?_, fun t ht => ?_⟩
  · rw [written_ofCursor]
    exact tokensFrom_legal none _ _ (Nat.zero_le _)
  · rw [supplied_eq_missing hfault] at ht
    obtain ⟨closer, -, rfl⟩ := List.mem_map.1 ht
    trivial

end Scan

end Calculator
