import Calculator.Proofs.Scan.Words

/-
  Blanks between tokens.  A text is respaced when its tokens stay and the blanks between them are
  others (`Respaced`): any before the first and after the last, any where there were none, and some
  where there were some.  A lexeme looks at most at the first character behind it, and a minus that
  starts no numeral at whether one starts behind it.  A respacing leaves that character as it is or
  puts a blank there, so each lexeme stays (`lexemeAt?_behind`), and with it what a minus after it
  means; so all tokens do (`tokenize_respaced`).
-/

namespace Calculator

/-! ## Blank characters -/

namespace Text

/-- The code points of a table. -/
def CharRanges.points (ranges : CharRanges) : List Nat :=
  ranges.flatMap fun range => List.range' range.1 (range.2 + 1 - range.1)

theorem CharRanges.mem_points {ranges : CharRanges} {n : Nat} (h : ranges.has n = true) :
    n ∈ ranges.points := by
  induction ranges with
  | nil => cases h
  | cons range ranges ih =>
    obtain ⟨low, high⟩ := range
    rw [has] at h
    rw [points, List.flatMap_cons, List.mem_append, List.mem_range'_1]
    by_cases hlow : n < low
    · simp [hlow] at h
    · rw [if_neg hlow, Bool.or_eq_true, decide_eq_true_eq] at h
      rcases h with hhigh | h
      · left
        dsimp only
        omega
      · exact .inr (ih h)

/-- A blank stands in no name. -/
theorem isNameChar_of_isBlank {c : Char} (h : isBlank c = true) : isNameChar c = false := by
  have hall : ∀ n ∈ blankRanges.points, isNameChar (Char.ofNat n) = false := by decide +kernel
  have hc := hall _ (CharRanges.mem_points h)
  rwa [Char.ofNat_toNat] at hc

end Text

namespace Scan

open Pattern

variable {signed : Bool} {word rest rest' : List Char} {l : Lexeme}

/-! ## What stands behind a lexeme -/

/-- What stands behind a lexeme in the one text, and what may stand there in the other: the same
character, or a blank, or nothing. -/
def Behind (rest rest' : List Char) : Prop :=
  ∀ c ∈ rest'.head?, c ∈ rest.head? ∨ Text.isBlank c = true

theorem Behind.takeWhile {ok : Char → Bool} (h : Behind rest rest')
    (hok : ∀ c, Text.isBlank c = true → ok c = false)
    (hword : (word ++ rest).takeWhile ok = word) : (word ++ rest').takeWhile ok = word := by
  have hall : ∀ c ∈ word, ok c = true := by
    rw [← hword]
    exact List.all_eq_true.1 List.all_takeWhile
  obtain ⟨-, hend⟩ := (prefix_append_iff hall _).2 hword
  rw [List.drop_left] at hend
  refine takeWhile_append hall rest' fun c hc => ?_
  rcases h c hc with hold | hblank
  · exact hend c hold
  · exact hok c hblank

/-- A numeral ends where there is neither a digit nor its first point. -/
theorem numeralLength?_eq_zero_iff {point digit : Bool} : numeralLength? point digit rest = some 0 ↔
    digit = true ∧ ∀ c ∈ rest.head?, c.isDigit = false ∧ (c == '.' && !point) = false := by
  cases rest with
  | nil => cases digit <;> simp [numeralLength?]
  | cons c cs =>
    rw [numeralLength?]
    split
    · next hdigit => simp [hdigit]
    rw [List.head?_cons]
    split
    · next hdigit hpoint =>
      simp only [Option.map_eq_some_iff, Nat.succ_ne_zero, and_false, exists_false, false_iff]
      rintro ⟨-, hend⟩
      exact absurd hpoint (by rw [(hend c rfl).2]; decide)
    · next hdigit hpoint =>
      rw [Bool.not_eq_true] at hdigit hpoint
      cases digit <;> simp only [Option.mem_def, Option.some_inj, forall_eq', hdigit, hpoint,
        and_self, if_true, reduceCtorEq, if_false, false_and]

/-- A blank is neither a digit nor a point. -/
theorem not_numeral_of_isBlank {c : Char} (h : Text.isBlank c = true) :
    c.isDigit = false ∧ c ≠ '.' := by
  constructor
  · cases hdigit : c.isDigit with
    | false => rfl
    | true =>
      have hname := Text.isNameChar_of_isBlank h
      rw [isNameChar_of_isDigit hdigit] at hname
      cases hname
  · rintro rfl
    exact absurd h (by decide)

/-- A numeral ends at what may stand behind it in the other text, too. -/
theorem Behind.numeralLength? {point digit : Bool} (h : Behind rest rest')
    (hword : numeralLength? point digit (word ++ rest) = some word.length) :
    Pattern.numeralLength? point digit (word ++ rest') = some word.length := by
  induction word generalizing point digit with
  | nil =>
    obtain ⟨hdigit, hend⟩ := numeralLength?_eq_zero_iff.1 hword
    refine numeralLength?_eq_zero_iff.2 ⟨hdigit, fun c hc => ?_⟩
    rcases h c hc with hold | hblank
    · exact hend c hold
    · obtain ⟨hnone, hpoint⟩ := not_numeral_of_isBlank hblank
      exact ⟨hnone, by simp [hpoint]⟩
  | cons c word ih =>
    rw [List.cons_append, Pattern.numeralLength?] at hword ⊢
    split at hword
    · next hdigit =>
      obtain ⟨n, hn, hlength⟩ := Option.map_eq_some_iff.1 hword
      obtain rfl : n = word.length := Nat.succ.inj hlength
      rw [if_pos hdigit, ih hn]
      rfl
    split at hword
    · next hdigit hpoint =>
      obtain ⟨n, hn, hlength⟩ := Option.map_eq_some_iff.1 hword
      obtain rfl : n = word.length := Nat.succ.inj hlength
      rw [if_neg hdigit, if_pos hpoint, ih hn]
      rfl
    · next hdigit hpoint => cases digit <;> cases hword

/-! ## The lexeme before it -/

/-- Every symbol has at most two characters: no digit and no point first, a minus only alone, and no
blank second. -/
theorem symbols_short : ∀ entry ∈ symbols, ∃ (c : Char) (cs : List Char),
    entry.1 = .literal (c :: cs) ∧ c.isDigit = false ∧ c ≠ '.' ∧
      (words.all fun entry => !opens c entry.1) = true ∧ (isMinus c = true → cs = []) ∧
      cs.length ≤ 1 ∧ (cs.all fun d => !Text.isBlank d) = true := by
  intro entry h
  rw [symbols, List.mem_append, List.mem_map] at h
  rcases h with ⟨sign, -, rfl⟩ | h
  · cases sign <;>
      exact ⟨_, _, rfl, by decide, by decide, by decide, by decide, by decide, by decide⟩
  · simp only [List.mem_cons, List.not_mem_nil, or_false] at h
    rcases h with rfl | rfl | rfl | rfl | rfl <;>
      exact ⟨_, _, rfl, by decide, by decide, by decide, by decide, by decide, by decide⟩

/-- A short symbol without blanks does not take in what is new behind a lexeme. -/
theorem Behind.starts {c : Char} {cs : List Char} (h : Behind rest rest') (hne : word ≠ [])
    (hshort : cs.length ≤ 1) (hblank : (cs.all fun d => !Text.isBlank d) = true)
    (hstarts : c :: cs <+: word ++ rest') : c :: cs <+: word ++ rest := by
  obtain ⟨d, word, rfl⟩ := List.exists_cons_of_ne_nil hne
  rw [List.cons_append, List.cons_prefix_cons] at hstarts ⊢
  refine ⟨hstarts.1, ?_⟩
  cases cs with
  | nil => exact List.nil_prefix
  | cons e others =>
    obtain rfl : others = [] := by simpa using hshort
    cases word with
    | cons f word => simpa [List.cons_prefix_cons] using hstarts.2
    | nil =>
      obtain ⟨others, hrest'⟩ := hstarts.2
      rw [List.nil_append] at hrest'
      rcases h e (by rw [← hrest']; rfl) with hold | hnew
      · obtain ⟨others, rfl⟩ := List.head?_eq_some_iff.1 hold
        exact ⟨others, rfl⟩
      · simp [hnew] at hblank

theorem positiveLength?_literal (c : Char) (cs text : List Char) :
    (Pattern.literal (c :: cs)).positiveLength? text =
      if c :: cs <+: text then some (c :: cs).length else none := by
  rw [positiveLength?, matchLength?]
  split <;> simp [Option.filter]

/-- A symbol stays as it is. -/
theorem Behind.symbol (h : Behind rest rest') (hne : word ≠ [])
    {table : List (Pattern × Lexeme)} (htable : ∀ entry ∈ table, entry ∈ symbols)
    (hword : firstAt? (word ++ rest) table = some (l, word.length)) :
    firstAt? (word ++ rest') table = some (l, word.length) := by
  induction table with
  | nil => cases hword
  | cons entry others ih =>
    obtain ⟨hentry, hothers⟩ := List.forall_mem_cons.1 htable
    obtain ⟨c, cs, hliteral, -, -, -, -, hshort, hblank⟩ := symbols_short entry hentry
    obtain ⟨pattern, lexeme⟩ := entry
    obtain rfl : pattern = .literal (c :: cs) := hliteral
    rw [firstAt?, positiveLength?_literal] at hword ⊢
    by_cases hstarts : c :: cs <+: word ++ rest
    · rw [if_pos hstarts, Option.some_inj, Prod.mk_inj] at hword
      obtain ⟨rfl, hlength⟩ := hword
      obtain rfl : c :: cs = word := by
        have htake := List.prefix_iff_eq_take.1 hstarts
        rwa [hlength, List.take_left] at htake
      rw [if_pos (List.prefix_append _ _)]
    · have hstarts' : ¬ c :: cs <+: word ++ rest' :=
        fun hnew => hstarts (h.starts hne hshort hblank hnew)
      rw [if_neg hstarts] at hword
      rw [if_neg hstarts']
      exact ih hothers hword

theorem positiveLength?_run {ok : Char → Bool} (hne : word ≠ []) {text : List Char} :
    (Pattern.run ok).positiveLength? text = some word.length ↔
      (text.takeWhile ok).length = word.length := by
  rw [positiveLength?, matchLength?]
  constructor
  · intro h
    exact Option.some.inj (Option.filter_eq_some_iff.1 h).1
  · intro h
    have hpos : 0 < word.length := List.length_pos_iff.2 hne
    simp [Option.filter, h, hpos]

theorem takeWhile_eq_of_length {ok : Char → Bool}
    (h : ((word ++ rest).takeWhile ok).length = word.length) :
    (word ++ rest).takeWhile ok = word := by
  rw [List.prefix_iff_eq_take.1 (List.takeWhile_prefix ok), h, List.take_left]

/-- So does a reserved word. -/
theorem Behind.reserved (h : Behind rest rest')
    (hword : firstAt? (word ++ rest) words = some (l, word.length)) :
    firstAt? (word ++ rest') words = some (l, word.length) := by
  rw [firstAt?_reserved] at hword ⊢
  obtain ⟨l', hlookup, heq⟩ := Option.map_eq_some_iff.1 hword
  obtain ⟨rfl, hlength⟩ := Prod.mk.inj heq
  have hrun : letters (word ++ rest) = word := takeWhile_eq_of_length hlength
  have hrun' : letters (word ++ rest') = word := by
    refine h.takeWhile (fun c hc => ?_) hrun
    cases hchar : isWordChar c with
    | false => rfl
    | true =>
      have hname := isNameChar_of_isWordChar hchar
      rw [Text.isNameChar_of_isBlank hc] at hname
      cases hname
  rw [hrun] at hlookup
  rw [hrun', hlookup]
  rfl

/-- So does a numeral. -/
theorem Behind.numeral (h : Behind rest rest') (hne : word ≠ [])
    (hword : (Pattern.numeral signed).positiveLength? (word ++ rest) = some word.length) :
    (Pattern.numeral signed).positiveLength? (word ++ rest') = some word.length := by
  obtain ⟨c, word, rfl⟩ := List.exists_cons_of_ne_nil hne
  rw [positiveLength?, Option.filter_eq_some_iff] at hword ⊢
  refine ⟨?_, hword.2⟩
  replace hword := hword.1
  rw [matchLength?, List.cons_append, List.head?_cons, List.tail_cons] at hword ⊢
  split at hword
  · next hminus =>
    obtain ⟨n, hn, hlength⟩ := Option.map_eq_some_iff.1 hword
    obtain rfl : n = word.length := Nat.succ.inj hlength
    rw [if_pos hminus, h.numeralLength? hn]
    rfl
  · next hminus =>
    rw [if_neg hminus]
    rw [← List.cons_append] at hword ⊢
    exact h.numeralLength? hword

theorem firstAt?_found {cs : List Char} {table : List (Pattern × Lexeme)} {n : Nat}
    (h : firstAt? cs table = some (l, n)) :
    ∃ entry ∈ table, entry.1.positiveLength? cs = some n := by
  induction table with
  | nil => cases h
  | cons entry others ih =>
    rw [firstAt?] at h
    split at h
    · next k hk =>
      cases h
      exact ⟨entry, List.mem_cons_self, hk⟩
    · obtain ⟨found, hmem, hfound⟩ := ih h
      exact ⟨found, List.mem_cons_of_mem _ hmem, hfound⟩

/-- What starts a symbol starts no word and, but for a minus, no numeral; a minus is a symbol by
itself. -/
theorem symbol_head {c : Char} {cs : List Char} {n : Nat}
    (h : firstAt? (c :: cs) symbols = some (l, n)) : c.isDigit = false ∧ c ≠ '.' ∧
      (words.all fun entry => !opens c entry.1) = true ∧ (isMinus c = true → n = 1) := by
  obtain ⟨entry, hentry, hn⟩ := firstAt?_found h
  obtain ⟨d, ds, hliteral, hdigit, hpoint, hwords, hminus, -, -⟩ := symbols_short entry hentry
  rw [hliteral, positiveLength?_literal] at hn
  split at hn
  · next hstarts =>
    obtain rfl : d = c := (List.cons_prefix_cons.1 hstarts).1
    refine ⟨hdigit, hpoint, hwords, fun h => ?_⟩
    rw [hminus h] at hn
    exact (Option.some.inj hn).symm
  · cases hn

theorem numeral_head {c : Char} {cs : List Char} {n : Nat}
    (h : (Pattern.numeral signed).positiveLength? (c :: cs) = some n) : isWordChar c = false := by
  cases hchar : isWordChar c with
  | false => rfl
  | true =>
    have hdigit : c.isDigit = false := by
      cases hd : c.isDigit with
      | false => rfl
      | true => rw [isWordChar_of_isDigit hd] at hchar; cases hchar
    rw [positiveLength?_numeral_of_name (isNameChar_of_isWordChar hchar) hdigit] at h
    cases h

theorem positiveLength?_minus {c : Char} (h : (signed && isMinus c) = true) (cs : List Char) :
    (Pattern.numeral signed).positiveLength? (c :: cs) =
      (Pattern.numeralLength? false false cs).map (· + 1) := by
  rw [positiveLength?, matchLength?, List.head?_cons, Option.any_some, if_pos h, List.tail_cons]
  cases Pattern.numeralLength? false false cs <;> simp [Option.filter]

/-- A lexeme stays as it is before what may stand behind it in the other text.  A minus that starts
no numeral must go on starting none. -/
theorem lexemeAt?_behind (h : Behind rest rest')
    (hminus : numeralLength? false false rest = none → numeralLength? false false rest' = none)
    (hblank : ∀ c ∈ word.head?, Text.isBlank c = false)
    (hword : lexemeAt? signed (word ++ rest) = some (l, word.length)) :
    lexemeAt? signed (word ++ rest') = some (l, word.length) := by
  have hne : word ≠ [] := List.length_pos_iff.1 (lexemeAt?_pos hword).1
  obtain ⟨c, others, rfl⟩ := List.exists_cons_of_ne_nil hne
  simp only [lexemeAt?, Option.or_eq_some_iff, Option.map_eq_some_iff,
    Option.map_eq_none_iff] at hword
  rw [lexemeAt?]
  rcases hword with hword | ⟨hwords, ⟨n, hn, heq⟩ | ⟨hnumeral, hsymbol | ⟨hsymbols, n, hn, heq⟩⟩⟩
  · rw [h.reserved hword]
    rfl
  · obtain ⟨rfl, rfl⟩ := Prod.mk.inj heq
    have hwords' : firstAt? (c :: others ++ rest') words = none := by
      refine firstAt?_words_of_head ?_
      rintro _ ⟨⟩
      exact numeral_head hn
    rw [hwords', h.numeral hne hn, Option.map_some, List.take_left, List.take_left]
    rfl
  · obtain ⟨hdigit, hpoint, hopens, hlength⟩ := symbol_head hsymbol
    have hnumeral' : (Pattern.numeral signed).positiveLength? (c :: others ++ rest') = none := by
      cases hm : signed && isMinus c with
      | false => exact positiveLength?_numeral_none _ hdigit hpoint hm
      | true =>
        obtain rfl : others = [] := by simpa using hlength (Bool.and_elim_right hm)
        rw [List.singleton_append, positiveLength?_minus hm, Option.map_eq_none_iff] at hnumeral ⊢
        exact hminus hnumeral
    rw [List.cons_append, firstAt?_of_not_opens hopens, ← List.cons_append, hnumeral',
      h.symbol hne (fun _ => id) hsymbol]
    rfl
  · obtain ⟨rfl, rfl⟩ := Prod.mk.inj heq
    have hname : IsName ((c :: others ++ rest).take (c :: others).length) :=
      isName_takeWhile hblank hwords hnumeral hsymbols hn
    rw [List.take_left] at hname ⊢
    obtain ⟨hdigit, -, hpi, hpi'⟩ := hname.head c rfl
    have hc : Text.isNameChar c = true := hname.chars c List.mem_cons_self
    have hrun : (c :: others ++ rest').takeWhile Text.isNameChar = c :: others :=
      h.takeWhile (fun _ => Text.isNameChar_of_isBlank)
        (takeWhile_eq_of_length ((positiveLength?_run hne).1 hn))
    have hn' : (Pattern.run Text.isNameChar).positiveLength? (c :: others ++ rest') =
        some (c :: others).length := (positiveLength?_run hne).2 (by rw [hrun])
    have hwords' : firstAt? (c :: others ++ rest') words = none := by
      have hletters : letters (c :: others ++ rest') = letters (c :: others) := by
        rw [letters, ← takeWhile_isWordChar, hrun]
      rw [firstAt?_words hletters, hname.word]
    rw [hwords', List.cons_append, firstAt?_symbols_of_name hc hpi hpi',
      positiveLength?_numeral_of_name hc hdigit, ← List.cons_append, hn', Option.map_some,
      List.take_left]
    rfl

/-! ## Respaced texts -/

/-- A text with the tokens of another one and other blanks between them.  Some are left where there
were some behind the token that ends at the given place; the first token has none before it. -/
inductive Respaced (text : Array Char) : Option Nat → List Token → List Char → Prop where
  | done {stop : Option Nat} {gap : List Char} (hgap : ∀ c ∈ gap, Text.isBlank c = true) :
      Respaced text stop [] gap
  | token {stop : Option Nat} {t : Token} {tokens : List Token} {gap new : List Char}
      (hgap : ∀ c ∈ gap, Text.isBlank c = true)
      (hapart : ∀ place ∈ stop, place < t.start.offset → gap ≠ [])
      (h : Respaced text (some t.stop.offset) tokens new) :
      Respaced text stop (t :: tokens) (gap ++ (t.span text ++ new))

/-- Before a character that is neither a digit nor a point there is no numeral. -/
theorem numeralLength?_none {cs : List Char}
    (h : ∀ c ∈ cs.head?, c.isDigit = false ∧ c ≠ '.') :
    Pattern.numeralLength? false false cs = none := by
  cases cs with
  | nil => rfl
  | cons c cs =>
    obtain ⟨hdigit, hpoint⟩ := h c rfl
    simp [Pattern.numeralLength?, hdigit, hpoint]

/-- A point starts no token but a numeral. -/
theorem numeral_of_point {cs : List Char} {n : Nat}
    (h : lexemeAt? signed ('.' :: cs) = some (l, n)) :
    Pattern.numeralLength? false false ('.' :: cs) ≠ none := by
  intro hnone
  have hwords : firstAt? ('.' :: cs) words = none :=
    firstAt?_words_of_head (by rintro _ ⟨⟩; decide)
  have hsymbols : firstAt? ('.' :: cs) symbols = none := firstAt?_of_not_opens (by decide) cs
  have hnumeral : (Pattern.numeral signed).positiveLength? ('.' :: cs) = none := by
    rw [positiveLength?, matchLength?, hnone]
    simp [isMinus, Option.filter]
  have hname : (Pattern.run Text.isNameChar).positiveLength? ('.' :: cs) = none := by
    rw [positiveLength?, matchLength?, List.takeWhile_cons_of_neg (by decide)]
    rfl
  rw [lexemeAt?, hwords, hnumeral, hsymbols, hname] at h
  cases h

/-- What a respaced text has behind a lexeme: the character that was there, or a blank, or nothing;
and no numeral where there was none. -/
structure Keeps (rest rest' : List Char) : Prop where
  behind : Behind rest rest'
  numeral : Pattern.numeralLength? false false rest = none →
    Pattern.numeralLength? false false rest' = none

theorem Keeps.blank (h : ∀ c ∈ rest'.head?, Text.isBlank c = true) : Keeps rest rest' where
  behind c hc := .inr (h c hc)
  numeral _ := numeralLength?_none fun c hc => not_numeral_of_isBlank (h c hc)

/-- The next token right behind a lexeme. -/
theorem Keeps.token {c : Char} {n : Nat} (h : lexemeAt? signed (c :: word ++ rest) = some (l, n))
    (rest' : List Char) : Keeps (c :: word ++ rest) (c :: word ++ rest') := by
  refine ⟨fun c hc => .inl hc, fun hnone => numeralLength?_none ?_⟩
  rintro _ ⟨⟩
  constructor
  · cases hdigit : c.isDigit with
    | false => rfl
    | true =>
      have hsome := numeralLength?_isSome false (word ++ rest)
      rw [List.cons_append, Pattern.numeralLength?, if_pos hdigit, Option.map_eq_none_iff] at hnone
      rw [hnone] at hsome
      cases hsome
  · rintro rfl
    exact numeral_of_point h hnone

/-- Without tokens a respaced text is blank. -/
theorem Respaced.blank {text : Array Char} {stop : Option Nat} {new : List Char}
    (h : Respaced text stop [] new) : Reads signed new [] ∧ Keeps rest new := by
  cases h with
  | done hgap =>
    refine ⟨.done (List.dropWhile_eq_nil_iff.2 hgap), .blank fun c hc => ?_⟩
    exact hgap c (List.mem_of_head? hc)

theorem drop_extract {text : Array Char} {first last : Nat} (hle : first ≤ last)
    (hlast : last ≤ text.size) :
    text.toList.drop first = (text.extract first last).toList ++ text.toList.drop last ∧
      (text.extract first last).toList.length = last - first := by
  have htake : (text.extract first last).toList = (text.toList.drop first).take (last - first) := by
    rw [Array.toList_extract, List.extract_eq_take_drop]
  rw [htake]
  constructor
  · calc text.toList.drop first
        = (text.toList.drop first).take (last - first) ++
            (text.toList.drop first).drop (last - first) := (List.take_append_drop _ _).symm
      _ = _ := by rw [List.drop_drop, Nat.add_sub_cancel' hle]
  · rw [List.length_take, List.length_drop, Array.length_toList]
    omega

/-- A respaced text reads as the tokens that were found. -/
theorem reads_respaced (previous : Option Lexeme) {c : Cursor} (count : Nat)
    (hc : c.offset ≤ c.text.size)
    (hfault : (tokensFrom previous (.ofOffset c.text c.offset) c count).2 = none)
    {stop : Option Nat} {new : List Char} (hnew : Respaced c.text stop
      (tokensFrom previous (.ofOffset c.text c.offset) c count).1 new) :
    Reads (allowsSign previous) new
        ((tokensFrom previous (.ofOffset c.text c.offset) c count).1.map (·.lexeme)) ∧
      (stop = some c.offset → Keeps (c.text.toList.drop c.offset) new) := by
  induction count generalizing previous c stop new with
  | zero =>
    obtain ⟨hreads, hkeeps⟩ := hnew.blank
    exact ⟨hreads, fun _ => hkeeps⟩
  | succ count ih =>
    obtain ⟨start, hblank, hstart, hhead, ⟨-, heq⟩ | ⟨-, -, heq⟩ |
      ⟨lexeme, n, hlexeme, hpos, hstop, heq⟩⟩ := tokensFrom_step previous count hc
    · rw [heq] at hnew ⊢
      obtain ⟨hreads, hkeeps⟩ := hnew.blank
      exact ⟨hreads, fun _ => hkeeps⟩
    · rw [heq] at hfault
      cases hfault
    · rw [heq] at hfault hnew ⊢
      cases hnew with
      | @token _ _ _ gap new hgap hapart hnew =>
        obtain ⟨hreads, hkeeps⟩ := ih (some lexeme) (c := ⟨c.text, start + n⟩) hstop hfault hnew
        obtain ⟨hsplit, hlength⟩ := drop_extract (Nat.le_add_right start n) hstop
        dsimp only [Token.span, Location.ofOffset] at *
        generalize (c.text.extract start (start + n)).toList = word at *
        rw [Nat.add_sub_cancel_left] at hlength
        subst hlength
        rw [hsplit] at hlexeme hhead
        obtain ⟨d, word, rfl⟩ := List.exists_cons_of_length_pos hpos
        have hkeeps := hkeeps rfl
        have hnew : lexemeAt? (allowsSign previous) (d :: word ++ new) =
            some (lexeme, (d :: word).length) :=
          lexemeAt?_behind hkeeps.behind hkeeps.numeral hhead hlexeme
        refine ⟨.blanks hgap (.token (hhead d rfl) hnew hreads), ?_⟩
        rintro rfl
        cases gap with
        | nil =>
          have hle : c.offset ≤ start := hblank.1
          have hnot : ¬ c.offset < start := fun hlt => hapart c.offset rfl hlt rfl
          obtain rfl : c.offset = start := by omega
          rw [hsplit]
          exact .token hlexeme new
        | cons b gap =>
          refine .blank ?_
          rintro _ ⟨⟩
          exact hgap b List.mem_cons_self

/-- A text is one of its own respacings. -/
theorem Tiles.respaced {text : Array Char} {first : Nat} {tokens : List Token}
    {fault : Option ScanFault} (h : Tiles text first tokens fault) (hfault : fault = none)
    {stop : Option Nat} (hstop : ∀ place ∈ stop, place = first) :
    Respaced text stop tokens (text.toList.drop first) := by
  induction h generalizing stop with
  | done hblank =>
    refine .done fun c hc => ?_
    obtain ⟨i, hi⟩ := List.mem_iff_getElem?.1 hc
    rw [List.getElem?_drop, Array.getElem?_toList] at hi
    exact hblank.2 _ c (Nat.le_add_right _ i) (Array.getElem?_eq_some_iff.1 hi).1 hi
  | stuck => cases hfault
  | @token first start last tokens fault hblank hlt hle h ih =>
    obtain ⟨hgap, hlength⟩ := drop_extract hblank.1 (Nat.le_of_lt (Nat.lt_of_lt_of_le hlt hle))
    rw [hgap, (drop_extract (Nat.le_of_lt hlt) hle).1]
    refine .token (fun c hc => ?_) (fun place hplace hbefore hnil => ?_) (ih hfault ?_)
    · obtain ⟨i, hi⟩ := List.mem_iff_getElem?.1 hc
      rw [Array.getElem?_toList, Array.getElem?_extract] at hi
      split at hi
      · exact hblank.2 _ c (Nat.le_add_right _ i) (by omega) hi
      · cases hi
    · obtain rfl := hstop place hplace
      rw [hnil, List.length_nil] at hlength
      dsimp only [Location.ofOffset] at hbefore
      omega
    · rintro _ ⟨⟩
      rfl

/-- Other blanks between the tokens of a source, as long as none of them is gone altogether, leave
its tokens as they are, those that are supplied at its end included. -/
theorem tokenize_respaced {source : String} {tokens : List Token}
    (h : tokenize (.ofString source) = .ok tokens) :
    Respaced source.toList.toArray none (ofCursor (.ofString source)).written source.toList ∧
      ∀ new : String,
        Respaced source.toList.toArray none (ofCursor (.ofString source)).written new.toList →
        ∃ tokens', tokenize (.ofString new) = .ok tokens' ∧
          tokens'.map (·.lexeme) = tokens.map (·.lexeme) ∧
          (ofCursor (.ofString new)).supplied.map (·.lexeme) =
            (ofCursor (.ofString source)).supplied.map (·.lexeme) := by
  obtain ⟨hfault, rfl⟩ := tokenize_eq_ok.1 h
  constructor
  · rw [written_ofCursor]
    rw [fault_ofCursor] at hfault
    have htiles := tokensFrom_tiles none (c := .ofString source) _ (Nat.zero_le _) (Nat.le_refl _)
    exact htiles.respaced hfault nofun
  · intro new hnew
    rw [written_ofCursor] at hnew
    rw [fault_ofCursor] at hfault
    obtain ⟨hreads, -⟩ := reads_respaced none (c := .ofString source) _ (Nat.zero_le _) hfault hnew
    change Reads true new.toList ((tokens (.ofString source)).1.map (·.lexeme)) at hreads
    rw [← fault_ofCursor] at hfault
    obtain ⟨tokens', htokens, hlexemes⟩ := tokenize_lexemes hreads
    obtain ⟨hfault', hwritten⟩ := reads_iff.1 hreads
    rw [← written_ofCursor] at hlexemes hwritten
    refine ⟨tokens', htokens, ?_, ?_⟩
    · rw [hlexemes, all, List.map_append, supplied_lexemes hfault]
    · rw [supplied_lexemes hfault', supplied_lexemes hfault, hwritten]

theorem written_difference : (ofCursor (.ofString "f(x--1")).written = [
    ⟨.identifier "f", ⟨1, 1, 0⟩, ⟨1, 2, 1⟩⟩, ⟨.symbol .openParen, ⟨1, 2, 1⟩, ⟨1, 3, 2⟩⟩,
    ⟨.identifier "x", ⟨1, 3, 2⟩, ⟨1, 4, 3⟩⟩, ⟨.symbol .sub, ⟨1, 4, 3⟩, ⟨1, 5, 4⟩⟩,
    ⟨.number (Numeral.read ['-', '1']), ⟨1, 5, 4⟩, ⟨1, 7, 6⟩⟩] := by
  decide +kernel

theorem respaced_difference : Respaced "f(x--1".toList.toArray none
    (ofCursor (.ofString "f(x--1")).written "\tf (x\n- -1 ".toList := by
  rw [written_difference]
  refine @Respaced.token _ _ _ _ ['\t'] _ (List.all_eq_true.1 rfl) nofun ?_
  refine @Respaced.token _ _ _ _ [' '] _ (List.all_eq_true.1 rfl)
    (fun _ _ _ => List.cons_ne_nil _ _) ?_
  refine @Respaced.token _ _ _ _ [] _ (List.forall_mem_nil _) ?_ ?_
  · rintro _ ⟨⟩ hlt
    exact absurd hlt (by decide)
  refine @Respaced.token _ _ _ _ ['\n'] _ (List.all_eq_true.1 rfl)
    (fun _ _ _ => List.cons_ne_nil _ _) ?_
  refine @Respaced.token _ _ _ _ [' '] _ (List.all_eq_true.1 rfl)
    (fun _ _ _ => List.cons_ne_nil _ _) ?_
  exact @Respaced.done _ _ [' '] (List.all_eq_true.1 rfl)

/-- Blanks in a difference leave the sign of its second number where it is. -/
theorem tokenize_respaced_difference : ∃ tokens tokens',
    tokenize (.ofString "f(x--1") = .ok tokens ∧
      tokenize (.ofString "\tf (x\n- -1 ") = .ok tokens' ∧
      tokens'.map (·.lexeme) = tokens.map (·.lexeme) := by
  have hfault : (ofCursor (.ofString "f(x--1")).fault = none := by decide +kernel
  have htokens := tokenize_eq_ok.2 ⟨hfault, rfl⟩
  obtain ⟨tokens', htokens', hlexemes, -⟩ :=
    (tokenize_respaced htokens).2 "\tf (x\n- -1 " respaced_difference
  exact ⟨_, tokens', htokens, htokens', hlexemes⟩

end Scan

end Calculator
