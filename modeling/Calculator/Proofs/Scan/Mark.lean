import Calculator.Proofs.Scan.Brackets
import Calculator.Proofs.Scan.Munch

/-
  Texts with a mark between them.  A mark is a character that makes a token by itself and stands in
  no other token, such as a semicolon or a closing bracket.  So a text reads the same when a mark
  follows it, whatever comes then (`lexemeAt?_mark`), and the lexemes of two texts with a mark between
  them are those of the one, the mark, and those of the other (`Reads.joined`).  A minus after a
  semicolon may belong to a numeral, as at the start of a text; after a closing bracket it subtracts.
-/

namespace Calculator

/-- A list without a value in it is at the start of another one as far as before the value. -/
theorem prefix_append_cons_iff {α : Type} {a : α} {l : List α} (h : a ∉ l) (before after : List α) :
    l <+: before ++ a :: after ↔ l <+: before := by
  induction before generalizing l with
  | nil =>
    cases l with
    | nil => simp
    | cons b l =>
      have hne : ¬ b = a := fun heq => h (heq ▸ List.mem_cons_self)
      simp [List.cons_prefix_cons, hne]
  | cons c before ih =>
    cases l with
    | nil => simp
    | cons b l =>
      rw [List.cons_append, List.cons_prefix_cons, List.cons_prefix_cons,
        ih fun hmem => h (List.mem_cons_of_mem _ hmem)]

namespace Scan

/-- A character that makes the token of a symbol, and is in no other token. -/
structure Mark (mark : Char) (sign : Symbol) : Prop where
  lexeme : ∀ signed rest, lexemeAt? signed (mark :: rest) = some (.symbol sign, 1)
  blank : Text.isBlank mark = false
  name : Text.isNameChar mark = false
  other : mark ≠ '.' ∧ mark ≠ '=' ∧ mark ≠ '>'

theorem semicolon_mark : Mark ';' .semicolon :=
  ⟨fun _ _ => lexemeAt?_symbol .semicolon nofun nofun, by decide, by decide, by decide⟩

theorem closeParen_mark : Mark ')' .closeParen :=
  ⟨fun _ _ => lexemeAt?_symbol .closeParen nofun nofun, by decide, by decide, by decide⟩

theorem closeBrace_mark : Mark '}' .closeBrace :=
  ⟨fun _ _ => lexemeAt?_symbol .closeBrace nofun nofun, by decide, by decide, by decide⟩

variable {mark : Char} {sign : Symbol} {signed : Bool} {cs cs' : List Char} {ls ls' : List Lexeme}

/-! ## What a mark ends -/

theorem takeWhile_mark {ok : Char → Bool} (h : ok mark = false) (cs rest : List Char) :
    (cs ++ mark :: rest).takeWhile ok = cs.takeWhile ok := by
  induction cs with
  | nil => exact List.takeWhile_cons_of_neg (by simp [h])
  | cons c cs ih => rw [List.cons_append, List.takeWhile_cons, List.takeWhile_cons, ih]

theorem Mark.isWordChar (h : Mark mark sign) : isWordChar mark = false := by
  by_contra hword
  rw [Bool.not_eq_false] at hword
  exact absurd h.name (by rw [isNameChar_of_isWordChar hword]; decide)

theorem Mark.isDigit (h : Mark mark sign) : mark.isDigit = false := by
  by_contra hdigit
  rw [Bool.not_eq_false] at hdigit
  exact absurd h.name (by rw [isNameChar_of_isDigit hdigit]; decide)

theorem numeralLength?_mark (h : Mark mark sign) (point digit : Bool) (cs rest : List Char) :
    Pattern.numeralLength? point digit (cs ++ mark :: rest) =
      Pattern.numeralLength? point digit cs := by
  induction cs generalizing point digit with
  | nil =>
    have hdigit : ¬ mark.isDigit = true := by simp [h.isDigit]
    have hpoint : ¬ (mark == '.' && !point) = true := by simp [h.other.1]
    rw [List.nil_append]
    unfold Pattern.numeralLength?
    rw [if_neg hdigit, if_neg hpoint]
  | cons c cs ih =>
    rw [List.cons_append, Pattern.numeralLength?, Pattern.numeralLength?, ih, ih]

/-- Past its first character no symbol has a mark in it. -/
theorem symbols_mark (h : Mark mark sign) : ∀ entry ∈ symbols, ∃ c others,
    entry.1 = .literal (c :: others) ∧ mark ∉ others := by
  obtain ⟨-, hequal, hgreater⟩ := h.other
  intro entry hentry
  rw [symbols, List.mem_append, List.mem_map] at hentry
  rcases hentry with ⟨sign, -, rfl⟩ | hentry
  · cases sign <;> exact ⟨_, _, rfl, by simp [hequal, hgreater]⟩
  · simp only [List.mem_cons, List.not_mem_nil, or_false] at hentry
    rcases hentry with rfl | rfl | rfl | rfl | rfl <;> exact ⟨_, _, rfl, List.not_mem_nil⟩

/-- The lexeme at the start of some text does not depend on what stands after a mark. -/
theorem lexemeAt?_mark (h : Mark mark sign) (signed : Bool) (hne : cs ≠ []) (rest : List Char) :
    lexemeAt? signed (cs ++ mark :: rest) = lexemeAt? signed cs := by
  obtain ⟨c, others, rfl⟩ := List.exists_cons_of_ne_nil hne
  have hwords : firstAt? (c :: others ++ mark :: rest) words = firstAt? (c :: others) words :=
    firstAt?_words (takeWhile_mark h.isWordChar _ rest)
  have hsymbols :
      firstAt? (c :: others ++ mark :: rest) symbols = firstAt? (c :: others) symbols := by
    refine firstAt?_congr fun entry hentry => ?_
    obtain ⟨d, spelling, heq, hmark⟩ := symbols_mark h entry hentry
    have hstarts :
        d :: spelling <+: c :: others ++ mark :: rest ↔ d :: spelling <+: c :: others := by
      rw [List.cons_append, List.cons_prefix_cons, List.cons_prefix_cons,
        prefix_append_cons_iff hmark]
    rw [heq, Pattern.positiveLength?, Pattern.positiveLength?, Pattern.matchLength?,
      Pattern.matchLength?]
    simp only [hstarts]
  have hnumeral : (Pattern.numeral signed).positiveLength? (c :: others ++ mark :: rest) =
      (Pattern.numeral signed).positiveLength? (c :: others) := by
    rw [Pattern.positiveLength?, Pattern.positiveLength?, Pattern.matchLength?,
      Pattern.matchLength?, numeralLength?_mark h, List.cons_append, List.head?_cons,
      List.head?_cons, List.tail_cons, List.tail_cons, numeralLength?_mark h]
  have hname : (Pattern.run Text.isNameChar).positiveLength? (c :: others ++ mark :: rest) =
      (Pattern.run Text.isNameChar).positiveLength? (c :: others) := by
    rw [Pattern.positiveLength?, Pattern.positiveLength?, Pattern.matchLength?,
      Pattern.matchLength?, takeWhile_mark h.name]
  -- A numeral and a name take up characters of the text before the mark only.
  have htake (p : Pattern) (lexeme : List Char → Lexeme) :
      ((p.positiveLength? (c :: others)).map fun n =>
        (lexeme ((c :: others ++ mark :: rest).take n), n)) =
      (p.positiveLength? (c :: others)).map fun n => (lexeme ((c :: others).take n), n) := by
    refine Option.map_congr fun n hn => ?_
    rw [List.take_append_of_le_length (positiveLength?_pos hn).2]
  rw [lexemeAt?, lexemeAt?, hwords, hsymbols, hnumeral, hname,
    htake (.numeral signed) fun cs => .number (Numeral.read cs),
    htake (.run Text.isNameChar) fun cs => .identifier (String.ofList cs)]

/-- Two texts with a mark between them read as the lexemes of the one, the mark, and the lexemes of
the other. -/
theorem Reads.joined (hmark : Mark mark sign) (h : Reads signed cs ls)
    (h' : Reads (!(Lexeme.symbol sign).endsOperand) cs' ls') :
    Reads signed (cs ++ mark :: cs') (ls ++ .symbol sign :: ls') := by
  have hblank : ¬ Text.isBlank mark = true := by simp [hmark.blank]
  induction h with
  | @done signed cs h =>
    have hskip : skipped (cs ++ mark :: cs') = mark :: cs' := by
      have hall : ∀ c ∈ cs, Text.isBlank c = true := List.dropWhile_eq_nil_iff.1 h
      rw [skipped, List.dropWhile_append_of_pos hall, List.dropWhile_cons_of_neg hblank]
    refine .next (n := 1) ?_ ?_
    · rw [hskip, hmark.lexeme]
    · rw [hskip]
      exact h'
  | @next signed cs l n ls hlexeme _ ih =>
    obtain ⟨hpos, hn⟩ := lexemeAt?_pos hlexeme
    have hne : skipped cs ≠ [] := by
      intro hnil
      rw [hnil, List.length_nil] at hn
      omega
    have hskip : skipped (cs ++ mark :: cs') = skipped cs ++ mark :: cs' := by
      rw [skipped, List.dropWhile_append, if_neg (by simpa using hne)]
    refine .next (n := n) ?_ ?_
    · rw [hskip, lexemeAt?_mark hmark signed hne, hlexeme]
    · rw [hskip, List.drop_append_of_le_length hn]
      exact ih

/-! ## Semicolons -/

theorem Reads.semicolon (h : Reads signed cs ls) (h' : Reads true cs' ls') :
    Reads signed (cs ++ ';' :: cs') (ls ++ .symbol .semicolon :: ls') := h.joined semicolon_mark h'

/-- A semicolon after a text in which no bracket is left open leaves the brackets of what follows to
be closed. -/
theorem closers_semicolon (h : closers ls = []) (ls' : List Lexeme) :
    closers (ls ++ .symbol .semicolon :: ls') = closers ls' := by
  have hfold : ls.foldl due [] = [] := h
  rw [closers, List.foldl_append, hfold]
  rfl

/-! ## Closing brackets -/

/-- A text with closing brackets after it reads as before, and then as those brackets. -/
theorem Reads.closers {dues : List Symbol} (hdues : ∀ s ∈ dues, s.IsCloser)
    (h : Reads signed cs ls) :
    Reads signed (cs ++ dues.flatMap Symbol.spelling) (ls ++ dues.map Lexeme.symbol) := by
  induction dues generalizing cs ls with
  | nil => simpa using h
  | cons closer dues ih =>
    obtain ⟨hcloser, hdues⟩ := List.forall_mem_cons.1 hdues
    have hclosed : Reads signed (cs ++ closer.spelling) (ls ++ [.symbol closer]) := by
      rcases hcloser with rfl | rfl
      · exact h.joined closeParen_mark (.done rfl)
      · exact h.joined closeBrace_mark (.done rfl)
    simpa using ih hdues hclosed

end Scan

end Calculator
