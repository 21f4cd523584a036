import Calculator.Token.Scan

/-
  Scanning by what is left of the text.  A cursor is a text with an offset, but what a pattern
  matches and which token comes next depend on the characters after the offset only.  Here both are
  said over those characters (`Pattern.matchLength?`, `Scan.lexemeAt?`), and the cursor is seen to
  follow (`nibble?_eq`, `lexeme?_eq`).  `Scan.Reads` says that a text reads as some lexemes; the
  scanner finds them then (`tokenize_of_reads`).
-/

namespace Calculator

namespace Pattern

/-! ## Matching what is left -/

/-- How many characters the digits and the point of a numeral take up, given whether a point and
whether a digit came before. -/
def numeralLength? (point digit : Bool) : List Char → Option Nat
  | [] => if digit then some 0 else none
  | c :: cs =>
    if c.isDigit then (numeralLength? point true cs).map (· + 1)
    else if c == '.' && !point then (numeralLength? true digit cs).map (· + 1)
    else if digit then some 0 else none

/-- How many characters a pattern matches at the start of a text. -/
def matchLength? : Pattern → List Char → Option Nat
  | run ok, cs => some (cs.takeWhile ok).length
  | word spelling, cs =>
    if spelling <+: cs ∧ ¬ (cs.drop spelling.length).head?.any
        (fun c => Text.isLetter c || c == '_') then some spelling.length else none
  | literal spelling, cs => if spelling <+: cs then some spelling.length else none
  | oneOf chars, cs => if cs.head?.any chars.contains then some 1 else none
  | numeral signed, cs =>
    if signed && cs.head?.any isMinus then (numeralLength? false false cs.tail).map (· + 1)
    else numeralLength? false false cs
  | either first second, cs => (first.matchLength? cs).or (second.matchLength? cs)

section Rest

variable (text : Array Char) {offset : Nat}

theorem head?_drop (offset : Nat) : (text.toList.drop offset).head? = text[offset]? := by
  rw [List.head?_drop, Array.getElem?_toList]

theorem drop_eq_cons {offset : Nat} (h : offset < text.size) :
    text.toList.drop offset = text[offset] :: text.toList.drop (offset + 1) := by
  rw [List.drop_eq_getElem_cons (by simpa using h), Array.getElem_toList]

theorem drop_eq_nil {offset : Nat} (h : ¬ offset < text.size) : text.toList.drop offset = [] :=
  List.drop_eq_nil_of_le (by simpa using h)

theorem extract_add (offset n : Nat) :
    (text.extract offset (offset + n)).toList = (text.toList.drop offset).take n := by
  rw [Array.toList_extract, List.extract_eq_take_drop, Nat.add_sub_cancel_left]

theorem runEnd_eq (ok : Char → Bool) (offset : Nat) :
    runEnd ok text offset = offset + ((text.toList.drop offset).takeWhile ok).length := by
  fun_induction runEnd ok text offset with
  | case1 offset h hok ih =>
    rw [ih, drop_eq_cons text h, List.takeWhile_cons_of_pos hok, List.length_cons]
    omega
  | case2 offset h hok => rw [drop_eq_cons text h, List.takeWhile_cons_of_neg hok]; rfl
  | case3 offset h => rw [drop_eq_nil text h]; rfl

theorem literalEnd?_eq (spelling : List Char) (h : offset ≤ text.size) :
    literalEnd? text spelling offset =
      if spelling <+: text.toList.drop offset then some (offset + spelling.length) else none := by
  induction spelling generalizing offset with
  | nil => simp [literalEnd?, h]
  | cons c cs ih =>
    rw [literalEnd?, ← head?_drop text offset]
    by_cases hlt : offset < text.size
    · rw [drop_eq_cons text hlt, ih hlt, List.head?_cons, List.length_cons]
      by_cases hc : text[offset] = c
      · have hlength : offset.succ + cs.length = offset + (cs.length + 1) := by omega
        simp only [hc, List.cons_prefix_cons, true_and, if_true, hlength, Nat.succ_eq_add_one]
      · have hc' : ¬ c = text[offset] := fun heq => hc heq.symm
        simp only [Option.some_inj, hc, hc', List.cons_prefix_cons, false_and, if_false]
    · simp [drop_eq_nil text hlt]

theorem numeralEnd?_eq (offset : Nat) (point digit : Bool) :
    numeralEnd? text offset point digit =
      (numeralLength? point digit (text.toList.drop offset)).map (offset + ·) := by
  have hnext (offset : Nat) : (fun n => offset + n) ∘ (fun n => n + 1) = (fun n => offset + 1 + n) :=
    funext fun n => by simp only [Function.comp]; omega
  fun_induction numeralEnd? text offset point digit with
  | case1 offset point digit h hd ih =>
    rw [ih, drop_eq_cons text h, numeralLength?, if_pos hd, Option.map_map, hnext]
  | case2 offset point digit h hd hp ih =>
    rw [ih, drop_eq_cons text h, numeralLength?, if_neg hd, if_pos hp, Option.map_map, hnext]
  | case3 offset point h hd hp =>
    rw [drop_eq_cons text h, numeralLength?, if_neg hd, if_neg hp]
    rfl
  | case4 offset point digit h hd hp hdigit =>
    rw [drop_eq_cons text h, numeralLength?, if_neg hd, if_neg hp, if_neg hdigit]
    rfl
  | case5 offset point h =>
    rw [drop_eq_nil text h]
    rfl
  | case6 offset point digit h hdigit =>
    rw [drop_eq_nil text h, numeralLength?, if_neg hdigit]
    rfl

theorem matchEnd?_eq (p : Pattern) (h : offset ≤ text.size) :
    p.matchEnd? text offset = (p.matchLength? (text.toList.drop offset)).map (offset + ·) := by
  induction p with
  | run ok => rw [matchEnd?, matchLength?, runEnd_eq]; rfl
  | word spelling =>
    rw [matchEnd?, matchLength?, literalEnd?_eq text spelling h, List.drop_drop, head?_drop]
    unfold continuesWord
    by_cases hs : spelling <+: text.toList.drop offset
    · by_cases hc : (text[offset + spelling.length]?.any fun c => Text.isLetter c || c == '_')
      · simp [hs, hc]
      · simp [hs, hc]
    · simp [hs]
  | literal spelling =>
    rw [matchEnd?, matchLength?, literalEnd?_eq text spelling h]
    split <;> rfl
  | oneOf chars =>
    rw [matchEnd?, matchLength?, head?_drop]
    split <;> rfl
  | numeral signed =>
    rw [matchEnd?, matchLength?, head?_drop, List.tail_drop]
    split
    · rw [numeralEnd?_eq, Option.map_map]
      congr 1
      funext n
      simp only [Function.comp]
      omega
    · exact numeralEnd?_eq ..
  | either first second ih₁ ih₂ =>
    rw [matchEnd?, matchLength?, ih₁, ih₂]
    cases first.matchLength? (text.toList.drop offset) <;> simp

end Rest

theorem numeralLength?_le {point digit : Bool} {cs : List Char} {n : Nat}
    (h : numeralLength? point digit cs = some n) : n ≤ cs.length := by
  fun_induction numeralLength? point digit cs generalizing n with
  | case1 =>
    cases h
    exact Nat.zero_le _
  | case2 => cases h
  | case3 point digit c cs hd ih =>
    obtain ⟨k, hk, rfl⟩ := Option.map_eq_some_iff.1 h
    have := ih hk
    simp only [List.length_cons]
    omega
  | case4 point digit c cs hd hp ih =>
    obtain ⟨k, hk, rfl⟩ := Option.map_eq_some_iff.1 h
    have := ih hk
    simp only [List.length_cons]
    omega
  | case5 =>
    cases h
    exact Nat.zero_le _
  | case6 => cases h

/-- A pattern matches no more than there is. -/
theorem matchLength?_le {p : Pattern} {cs : List Char} {n : Nat} (h : p.matchLength? cs = some n) :
    n ≤ cs.length := by
  induction p with
  | run ok =>
    rw [matchLength?, Option.some_inj] at h
    rw [← h]
    exact (List.takeWhile_prefix ok).length_le
  | word spelling =>
    rw [matchLength?] at h
    split at h
    · next hs =>
      rw [Option.some_inj] at h
      rw [← h]
      exact hs.1.length_le
    · cases h
  | literal spelling =>
    rw [matchLength?] at h
    split at h
    · next hs =>
      rw [Option.some_inj] at h
      rw [← h]
      exact hs.length_le
    · cases h
  | oneOf chars =>
    rw [matchLength?] at h
    split at h
    · next hc =>
      rw [Option.some_inj] at h
      cases cs with
      | nil => simp at hc
      | cons c cs => simp only [List.length_cons]; omega
    · cases h
  | numeral signed =>
    rw [matchLength?] at h
    split at h
    · next hc =>
      obtain ⟨k, hk, rfl⟩ := Option.map_eq_some_iff.1 h
      have := numeralLength?_le hk
      cases cs with
      | nil => simp at hc
      | cons c cs =>
        simp only [List.tail_cons] at this
        simp only [List.length_cons]
        omega
    · exact numeralLength?_le h
  | either first second ih₁ ih₂ =>
    rw [matchLength?, Option.or_eq_some_iff] at h
    rcases h with h | ⟨-, h⟩
    · exact ih₁ h
    · exact ih₂ h

/-- How many characters, at least one, a pattern matches at the start of a text. -/
def positiveLength? (p : Pattern) (cs : List Char) : Option Nat :=
  (p.matchLength? cs).filter (0 < ·)

end Pattern

namespace Cursor

theorem rest_eq (c : Cursor) : c.rest = c.text.toList.drop c.offset := by
  rw [rest, Array.toList_extract, List.extract_eq_take_drop]
  exact List.take_of_length_le (by simp)

theorem nibble?_eq (c : Cursor) (h : c.offset ≤ c.text.size) (p : Pattern) :
    c.nibble? p = (p.positiveLength? c.rest).map fun n =>
      (c.rest.take n, { c with offset := c.offset + n }) := by
  rw [nibble?, stop?, Pattern.matchEnd?_eq _ p h, ← rest_eq, Pattern.positiveLength?]
  cases p.matchLength? c.rest with
  | none => rfl
  | some n =>
    by_cases hn : 0 < n
    · have hlt : c.offset < c.offset + n := by omega
      simp [Option.filter, hn, hlt, rest_eq, List.extract_eq_take_drop]
    · simp [Option.filter, hn]

theorem isEmpty_eq (c : Cursor) : c.isEmpty = c.rest.isEmpty := by
  rw [rest_eq, isEmpty, Bool.eq_iff_iff, decide_eq_true_iff, List.isEmpty_iff,
    List.drop_eq_nil_iff, Array.length_toList]

/-- Skipping a run of characters drops it from what is left. -/
theorem chomp_run (c : Cursor) (h : c.offset ≤ c.text.size) (ok : Char → Bool) :
    c.chomp (.run ok) = { c with offset := c.offset + (c.rest.takeWhile ok).length } := by
  rw [chomp, nibble?_eq c h, Pattern.positiveLength?, Pattern.matchLength?]
  by_cases hn : 0 < (c.rest.takeWhile ok).length
  · simp [Option.filter, hn]
  · simp [Option.filter, Nat.eq_zero_of_not_pos hn]

theorem rest_add (c : Cursor) (n : Nat) :
    rest { c with offset := c.offset + n } = c.rest.drop n := by
  rw [rest_eq, rest_eq, List.drop_drop]

end Cursor

namespace Scan

/-! ## Tokens of what is left -/

/-- The lexeme of the first pattern that matches at the start of a text, and how many characters
it takes up. -/
def firstAt? (cs : List Char) : List (Pattern × Lexeme) → Option (Lexeme × Nat)
  | [] => none
  | (pattern, lexeme) :: others =>
    match pattern.positiveLength? cs with
    | some n => some (lexeme, n)
    | none => firstAt? cs others

/-- The lexeme at the start of a text, and how many characters it takes up. -/
def lexemeAt? (signed : Bool) (cs : List Char) : Option (Lexeme × Nat) :=
  (firstAt? cs words).or <|
  (((Pattern.numeral signed).positiveLength? cs).map fun n =>
    (.number (Numeral.read (cs.take n)), n)).or <|
  (firstAt? cs symbols).or <|
  ((Pattern.run Text.isNameChar).positiveLength? cs).map fun n =>
    (.identifier (String.ofList (cs.take n)), n)

theorem first?_eq (c : Cursor) (h : c.offset ≤ c.text.size) (table : List (Pattern × Lexeme)) :
    first? c table = (firstAt? c.rest table).map fun found =>
      (found.1, { c with offset := c.offset + found.2 }) := by
  induction table with
  | nil => rfl
  | cons entry others ih =>
    obtain ⟨pattern, lexeme⟩ := entry
    rw [first?, firstAt?, c.nibble?_eq h]
    cases pattern.positiveLength? c.rest with
    | none => exact ih
    | some n => rfl

theorem lexeme?_eq (signed : Bool) (c : Cursor) (h : c.offset ≤ c.text.size) :
    lexeme? signed c = (lexemeAt? signed c.rest).map fun found =>
      (found.1, { c with offset := c.offset + found.2 }) := by
  rw [lexeme?, lexemeAt?, first?_eq c h, first?_eq c h, c.nibble?_eq h, c.nibble?_eq h]
  simp only [Option.map_or, Option.map_map]
  rfl

theorem positiveLength?_pos {p : Pattern} {cs : List Char} {n : Nat}
    (h : p.positiveLength? cs = some n) : 0 < n ∧ n ≤ cs.length := by
  rw [Pattern.positiveLength?, Option.filter_eq_some_iff] at h
  exact ⟨by simpa using h.2, Pattern.matchLength?_le h.1⟩

theorem firstAt?_pos {cs : List Char} {table : List (Pattern × Lexeme)} {found : Lexeme × Nat}
    (h : firstAt? cs table = some found) : 0 < found.2 ∧ found.2 ≤ cs.length := by
  induction table with
  | nil => cases h
  | cons entry others ih =>
    rw [firstAt?] at h
    split at h
    · next n hn =>
      cases h
      exact positiveLength?_pos hn
    · exact ih h

/-- A lexeme takes up at least one character. -/
theorem lexemeAt?_pos {signed : Bool} {cs : List Char} {l : Lexeme} {n : Nat}
    (h : lexemeAt? signed cs = some (l, n)) : 0 < n ∧ n ≤ cs.length := by
  simp only [lexemeAt?, Option.or_eq_some_iff, Option.map_eq_some_iff] at h
  rcases h with h | ⟨-, ⟨k, hk, heq⟩ | ⟨-, h | ⟨-, k, hk, heq⟩⟩⟩
  · exact firstAt?_pos h
  · cases heq
    exact positiveLength?_pos hk
  · exact firstAt?_pos h
  · cases heq
    exact positiveLength?_pos hk

/-! ## Texts that read as lexemes -/

/-- A text without its leading blanks. -/
abbrev skipped (cs : List Char) : List Char := cs.dropWhile Text.isBlank

/-- A text reads as some lexemes, given whether a minus may belong to a numeral at its start. -/
inductive Reads : Bool → List Char → List Lexeme → Prop where
  | done {signed : Bool} {cs : List Char} (h : skipped cs = []) : Reads signed cs []
  | next {signed : Bool} {cs : List Char} {l : Lexeme} {n : Nat} {ls : List Lexeme}
      (h : lexemeAt? signed (skipped cs) = some (l, n))
      (rest : Reads (!l.endsOperand) ((skipped cs).drop n) ls) : Reads signed cs (l :: ls)

/-- Blanks before a text do not change what it reads as. -/
theorem Reads.blank {signed : Bool} {c : Char} {cs : List Char} {ls : List Lexeme}
    (hc : Text.isBlank c = true) (h : Reads signed cs ls) : Reads signed (c :: cs) ls := by
  have hskip : skipped (c :: cs) = skipped cs := List.dropWhile_cons_of_pos hc
  cases h with
  | done h => exact .done (hskip.trans h)
  | next h rest => exact .next (by rw [hskip]; exact h) (by rw [hskip]; exact rest)

theorem Reads.blanks {signed : Bool} {gap cs : List Char} {ls : List Lexeme}
    (hgap : ∀ c ∈ gap, Text.isBlank c = true) (h : Reads signed cs ls) :
    Reads signed (gap ++ cs) ls := by
  induction gap with
  | nil => exact h
  | cons c gap ih =>
    obtain ⟨hc, hgap⟩ := List.forall_mem_cons.1 hgap
    exact .blank hc (ih hgap)

/-- A token at the start of a text. -/
theorem Reads.token {signed : Bool} {c : Char} {word rest : List Char} {l : Lexeme}
    {ls : List Lexeme} (hc : Text.isBlank c = false)
    (h : lexemeAt? signed (c :: word ++ rest) = some (l, (c :: word).length))
    (hrest : Reads (!l.endsOperand) rest ls) : Reads signed (c :: word ++ rest) (l :: ls) := by
  have hskip : skipped (c :: word ++ rest) = c :: word ++ rest :=
    List.dropWhile_cons_of_neg (by simp [hc])
  refine .next (by rw [hskip]; exact h) ?_
  rw [hskip, List.drop_left]
  exact hrest

theorem length_takeWhile_le (ok : Char → Bool) (cs : List Char) :
    (cs.takeWhile ok).length ≤ cs.length := (List.takeWhile_prefix ok).length_le

theorem drop_length_takeWhile (ok : Char → Bool) (cs : List Char) :
    cs.drop (cs.takeWhile ok).length = cs.dropWhile ok := by
  have h := List.takeWhile_append_dropWhile (p := ok) (l := cs)
  calc cs.drop (cs.takeWhile ok).length
      = (cs.takeWhile ok ++ cs.dropWhile ok).drop (cs.takeWhile ok).length := by rw [h]
    _ = cs.dropWhile ok := List.drop_left

theorem chomp_blank (c : Cursor) (h : c.offset ≤ c.text.size) :
    (c.chomp (.run Text.isBlank)).rest = skipped c.rest ∧
      (c.chomp (.run Text.isBlank)).offset ≤ (c.chomp (.run Text.isBlank)).text.size := by
  have hlength : c.rest.length = c.text.size - c.offset := by
    rw [Cursor.rest_eq, List.length_drop, Array.length_toList]
  have hle := length_takeWhile_le Text.isBlank c.rest
  rw [c.chomp_run h, Cursor.rest_add, drop_length_takeWhile]
  exact ⟨rfl, by dsimp only; omega⟩

/-- The scanner finds the lexemes that a text reads as. -/
theorem tokensFrom_of_reads {signed : Bool} {cs : List Char} {ls : List Lexeme}
    (h : Reads signed cs ls) (previous : Option Lexeme) (place : Location) (c : Cursor)
    (count : Nat) (hc : c.offset ≤ c.text.size) (hsigned : allowsSign previous = signed)
    (hrest : c.rest = cs) (hcount : cs.length ≤ count) :
    ((tokensFrom previous place c count).1.map (·.lexeme) = ls) ∧
      (tokensFrom previous place c count).2 = none := by
  induction h generalizing previous place c count with
  | @done signed cs h =>
    cases count with
    | zero => exact ⟨rfl, rfl⟩
    | succ count =>
      obtain ⟨hskip, -⟩ := chomp_blank c hc
      have hempty : (c.chomp (.run Text.isBlank)).isEmpty = true := by
        rw [Cursor.isEmpty_eq, hskip, hrest, h]
        rfl
      rw [tokensFrom, if_pos hempty]
      exact ⟨rfl, rfl⟩
  | @next signed cs l n ls h _ ih =>
    obtain ⟨hpos, hn⟩ := lexemeAt?_pos h
    have hle : (skipped cs).length ≤ cs.length := (List.dropWhile_suffix _).length_le
    obtain ⟨count, rfl⟩ : ∃ k, count = k + 1 := ⟨count - 1, by omega⟩
    obtain ⟨hskip, hsize⟩ := chomp_blank c hc
    rw [hrest] at hskip
    rw [tokensFrom]
    generalize c.chomp (.run Text.isBlank) = c' at *
    have hempty : ¬ c'.isEmpty = true := by
      rw [Cursor.isEmpty_eq, hskip, List.isEmpty_iff]
      intro hnil
      rw [hnil, List.length_nil] at hn
      omega
    have hlex : lexeme? (allowsSign previous) c' = some (l, { c' with offset := c'.offset + n }) := by
      rw [lexeme?_eq _ c' hsize, hskip, hsigned, h]
      rfl
    have hlength : c'.rest.length = c'.text.size - c'.offset := by
      rw [Cursor.rest_eq, List.length_drop, Array.length_toList]
    have hnext := ih (some l)
      ((place.forward c'.text c'.offset).forward c'.text (c'.offset + n))
      { c' with offset := c'.offset + n } count
      (by rw [hskip] at hlength; dsimp only; omega) rfl (by rw [Cursor.rest_add, hskip])
      (by rw [List.length_drop]; omega)
    simp only [hempty, hlex, List.map_cons, hnext, Bool.false_eq_true, if_false, and_self]

/-- A text that the scanner gets to the end of reads as the lexemes that it finds. -/
theorem reads_of_tokensFrom (previous : Option Lexeme) (place : Location) (c : Cursor) (count : Nat)
    (hc : c.offset ≤ c.text.size) (hcount : c.rest.length ≤ count)
    (hfault : (tokensFrom previous place c count).2 = none) :
    Reads (allowsSign previous) c.rest ((tokensFrom previous place c count).1.map (·.lexeme)) := by
  induction count generalizing previous place c with
  | zero =>
    obtain hnil := List.eq_nil_of_length_eq_zero (Nat.le_zero.1 hcount)
    rw [hnil]
    exact .done rfl
  | succ count ih =>
    obtain ⟨hskip, hsize⟩ := chomp_blank c hc
    have hle : (skipped c.rest).length ≤ c.rest.length := (List.dropWhile_suffix _).length_le
    rw [tokensFrom] at hfault ⊢
    generalize c.chomp (.run Text.isBlank) = c' at *
    rw [Cursor.isEmpty_eq, hskip] at hfault ⊢
    cases hempty : (skipped c.rest).isEmpty with
    | true => exact .done (List.isEmpty_iff.1 hempty)
    | false =>
      simp only [hempty, Bool.false_eq_true, if_false, lexeme?_eq _ c' hsize, hskip] at hfault ⊢
      cases hlexeme : lexemeAt? (allowsSign previous) (skipped c.rest) with
      | none =>
        rw [hlexeme] at hfault
        cases hfault
      | some found =>
        obtain ⟨l, n⟩ := found
        obtain ⟨hpos, hn⟩ := lexemeAt?_pos hlexeme
        have hlength : c'.rest.length = c'.text.size - c'.offset := by
          rw [Cursor.rest_eq, List.length_drop, Array.length_toList]
        rw [hlexeme] at hfault
        have hrest := ih (some l) ((place.forward c'.text c'.offset).forward c'.text (c'.offset + n))
          { c' with offset := c'.offset + n } (by rw [hskip] at hlength; dsimp only; omega)
          (by rw [Cursor.rest_add, List.length_drop, hskip]; omega) hfault
        rw [Cursor.rest_add, hskip] at hrest
        exact .next hlexeme hrest

theorem rest_ofString (source : String) : (Cursor.ofString source).rest = source.toList := by
  rw [Cursor.rest_eq]
  rfl

theorem length_ofString (source : String) :
    source.toList.length ≤ (Cursor.ofString source).text.size - (Cursor.ofString source).offset :=
  Nat.le_of_eq List.size_toArray.symm

theorem written_ofCursor (c : Cursor) : (ofCursor c).written = (tokens c).1 := by
  unfold ofCursor
  split
  · next heq => rw [heq]
  · next heq => rw [heq]

theorem fault_ofCursor (c : Cursor) : (ofCursor c).fault = (tokens c).2 := by
  unfold ofCursor
  split
  · next heq => rw [heq]
  · next heq => rw [heq]

/-- A text reads as lexemes just when the scanner gets to its end and finds them. -/
theorem reads_iff {source : String} {ls : List Lexeme} : Reads true source.toList ls ↔
    (ofCursor (.ofString source)).fault = none ∧
      (ofCursor (.ofString source)).written.map (·.lexeme) = ls := by
  rw [written_ofCursor, fault_ofCursor]
  constructor
  · intro h
    exact (tokensFrom_of_reads h none _ (.ofString source) _ (Nat.zero_le _) rfl
      (rest_ofString source) (length_ofString source)).symm
  · rintro ⟨hfault, rfl⟩
    have hreads := reads_of_tokensFrom none _ (.ofString source) _ (Nat.zero_le _)
      (by rw [rest_ofString]; exact length_ofString source) hfault
    rw [rest_ofString] at hreads
    exact hreads

theorem tokenize_eq_ok {c : Cursor} {tokens : List Token} :
    tokenize c = .ok tokens ↔ (ofCursor c).fault = none ∧ (ofCursor c).all = tokens := by
  unfold tokenize
  dsimp only
  cases (ofCursor c).fault with
  | none => simp
  | some fault => simp

theorem tokenize_eq_error {c : Cursor} {fault : ScanFault} (h : (ofCursor c).fault = some fault) :
    tokenize c = .error fault := by
  unfold tokenize
  dsimp only
  rw [h]

theorem supplied_eq_missing {c : Cursor} (h : (ofCursor c).fault = none) :
    (ofCursor c).supplied = missing c.text (ofCursor c).written := by
  unfold ofCursor at h ⊢
  split at h
  · rfl
  · cases h

theorem supplied_eq_nil {c : Cursor} {fault : ScanFault} (h : (ofCursor c).fault = some fault) :
    (ofCursor c).supplied = [] := by
  unfold ofCursor at h ⊢
  split at h
  · cases h
  · rfl

/-- The scanner closes the brackets that are left open at the end of a text. -/
theorem supplied_lexemes {c : Cursor} (h : (ofCursor c).fault = none) :
    (ofCursor c).supplied.map (·.lexeme) =
      (closers ((ofCursor c).written.map (·.lexeme))).map Lexeme.symbol := by
  rw [supplied_eq_missing h, missing, List.map_map]
  rfl

/-- The tokens of a text that reads as lexemes are theirs and those of the brackets left open. -/
theorem tokenize_lexemes {source : String} {ls : List Lexeme} (h : Reads true source.toList ls) :
    ∃ tokens, tokenize (.ofString source) = .ok tokens ∧
      tokens.map (·.lexeme) = ls ++ (closers ls).map Lexeme.symbol := by
  obtain ⟨hfault, rfl⟩ := reads_iff.1 h
  refine ⟨_, tokenize_eq_ok.2 ⟨hfault, rfl⟩, ?_⟩
  rw [all, List.map_append, supplied_lexemes hfault]

/-- A text that reads as lexemes with no bracket left open has just their tokens. -/
theorem tokenize_of_reads {source : String} {ls : List Lexeme} (h : Reads true source.toList ls)
    (hclosed : closers ls = []) :
    ∃ tokens, tokenize (.ofString source) = .ok tokens ∧ tokens.map (·.lexeme) = ls := by
  obtain ⟨tokens, htokens, hlexemes⟩ := tokenize_lexemes h
  rw [hclosed, List.map_nil, List.append_nil] at hlexemes
  exact ⟨tokens, htokens, hlexemes⟩

end Scan

end Calculator
