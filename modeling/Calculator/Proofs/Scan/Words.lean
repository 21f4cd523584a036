import Calculator.Proofs.Scan.Tiles

/-
  Words as the scanner reads them.  Where a token starts with a character of names, the token depends
  on two runs of the text there: the letters and underscores, which the reserved words are compared
  with, and the characters of names, of which a name takes all (`lexemeAt?_word`).  Digits and other
  numeric characters are in the second run only.  So a word is one token unless a numeric character
  comes right after a reserved word; then the reserved word is cut off (`ofCursor_words`).
-/

namespace Calculator

/-- What a whole word says: a reserved word, or a name. -/
def Lexeme.ofWord (word : List Char) : Lexeme :=
  (reserved.lookup word).getD (.identifier (String.ofList word))

namespace Token

/-- The text from where a token starts. -/
def onward (t : Token) (text : Array Char) : List Char := text.toList.drop t.start.offset

/-- Two tokens take no character in common. -/
def Apart (t t' : Token) : Prop :=
  t.stop.offset ≤ t'.start.offset ∨ t'.stop.offset ≤ t.start.offset

instance : Std.Symm Apart := ⟨fun _ _ => Or.symm⟩

theorem span_eq (t : Token) (text : Array Char) :
    t.span text = (t.onward text).take (t.stop.offset - t.start.offset) := by
  rw [span, onward, Array.toList_extract, List.extract_eq_take_drop]

end Token

namespace Scan

open Pattern Lexeme

variable {text : Array Char} {cs : List Char}

/-! ## Words -/

/-- The run of characters of names that a text starts with. -/
abbrev nameRun (cs : List Char) : List Char := cs.takeWhile Text.isNameChar

/-- A run of characters of names that is a reserved word is all letters. -/
theorem letters_of_reserved {l : Lexeme} (h : reserved.lookup (nameRun cs) = some l) :
    letters cs = nameRun cs := by
  obtain ⟨-, hchars⟩ := reserved_isWordChar _ (mem_of_lookup h)
  rw [letters, ← takeWhile_isWordChar]
  exact List.takeWhile_eq_self_iff.2 hchars

/-- A text starts with a character of names that is no digit and no sign. -/
def StartsWord (cs : List Char) : Prop :=
  ∃ c ∈ cs.head?, Text.isNameChar c = true ∧ c.isDigit = false ∧ c ≠ 'π' ∧ c ≠ '𝜋'

/-- A reserved word starts the text, and a character of names that is no letter comes after it. -/
def CutsWord (cs : List Char) : Prop :=
  (reserved.lookup (letters cs)).isSome = true ∧ letters cs ≠ nameRun cs

instance (cs : List Char) : Decidable (CutsWord cs) := instDecidableAnd

/-- The part of the word at the start of a text that makes one token. -/
def wordAt (cs : List Char) : List Char := if CutsWord cs then letters cs else nameRun cs

theorem wordAt_of_cuts (h : CutsWord cs) : wordAt cs = letters cs := if_pos h

theorem wordAt_of_not_cuts (h : ¬ CutsWord cs) : wordAt cs = nameRun cs := if_neg h

theorem wordAt_eq_nameRun_iff : wordAt cs = nameRun cs ↔ ¬ CutsWord cs := by
  constructor
  · intro h hcuts
    rw [wordAt_of_cuts hcuts] at h
    exact hcuts.2 h
  · exact wordAt_of_not_cuts

theorem wordAt_starts (cs : List Char) : wordAt cs <+: cs := by
  unfold wordAt
  split <;> exact List.takeWhile_prefix _

theorem wordAt_reserved {l : Lexeme} (h : reserved.lookup (letters cs) = some l) :
    wordAt cs = letters cs := by
  by_cases hcuts : CutsWord cs
  · exact wordAt_of_cuts hcuts
  · rw [wordAt_of_not_cuts hcuts]
    by_contra hne
    exact hcuts ⟨by rw [h]; rfl, fun heq => hne heq.symm⟩

/-- The scanner makes a token of the word that a text starts with, whatever comes before. -/
theorem lexemeAt?_word (signed : Bool) (h : StartsWord cs) :
    lexemeAt? signed cs = some (ofWord (wordAt cs), (wordAt cs).length) := by
  have hwords := firstAt?_reserved cs
  cases hlookup : reserved.lookup (letters cs) with
  | some l =>
    rw [wordAt_reserved hlookup, ofWord, hlookup, lexemeAt?, hwords, hlookup]
    rfl
  | none =>
    obtain ⟨c, hhead, hname, hdigit, hpi, hpi'⟩ := h
    obtain ⟨others, rfl⟩ := List.head?_eq_some_iff.1 hhead
    have hcuts : ¬ CutsWord (c :: others) := fun hcuts => by simp [CutsWord, hlookup] at hcuts
    have hfree : reserved.lookup (nameRun (c :: others)) = none := by
      cases hrun : reserved.lookup (nameRun (c :: others)) with
      | none => rfl
      | some l => rw [← letters_of_reserved hrun, hlookup] at hrun; cases hrun
    have hnumeral : (Pattern.numeral signed).positiveLength? (c :: others) = none :=
      positiveLength?_numeral_of_name hname hdigit signed others
    have hrun : (Pattern.run Text.isNameChar).positiveLength? (c :: others) =
        some (nameRun (c :: others)).length := by
      rw [positiveLength?, matchLength?]
      simp [Option.filter, hname]
    have htake : (c :: others).take (nameRun (c :: others)).length = nameRun (c :: others) :=
      (List.prefix_iff_eq_take.1 (List.takeWhile_prefix _)).symm
    rw [wordAt_of_not_cuts hcuts, ofWord, hfree, lexemeAt?, hwords, hlookup, hnumeral,
      firstAt?_symbols_of_name hname hpi hpi', hrun, Option.map_some, htake]
    rfl

/-! ## What a scan reads at each place -/

/-- A token is what the scanner finds where it starts, and a fault is where it finds nothing. -/
theorem tokensFrom_lexemeAt? (previous : Option Lexeme) {c : Cursor} (count : Nat)
    (hc : c.offset ≤ c.text.size) :
    (∀ t ∈ (tokensFrom previous (.ofOffset c.text c.offset) c count).1, ∃ signed,
      lexemeAt? signed (t.onward c.text) = some (t.lexeme, t.stop.offset - t.start.offset)) ∧
    ∀ f ∈ (tokensFrom previous (.ofOffset c.text c.offset) c count).2, ∃ signed,
      lexemeAt? signed f.rest = none := by
  induction count generalizing previous c with
  | zero => exact ⟨List.forall_mem_nil _, nofun⟩
  | succ count ih =>
    obtain ⟨start, -, -, -, ⟨-, heq⟩ | ⟨-, hnone, heq⟩ | ⟨lexeme, n, hlexeme, -, hstop, heq⟩⟩ :=
      tokensFrom_step previous count hc
    · rw [heq]
      exact ⟨List.forall_mem_nil _, nofun⟩
    · rw [heq]
      refine ⟨List.forall_mem_nil _, ?_⟩
      rintro _ ⟨⟩
      exact ⟨_, hnone⟩
    · obtain ⟨htokens, hfault⟩ := ih (some lexeme) (c := ⟨c.text, start + n⟩) hstop
      rw [heq]
      refine ⟨List.forall_mem_cons.2 ⟨⟨allowsSign previous, ?_⟩, htokens⟩, hfault⟩
      rw [Token.onward, Location.ofOffset, Location.ofOffset, Nat.add_sub_cancel_left]
      exact hlexeme

theorem Tiles.apart {first : Nat} {tokens : List Token} {fault : Option ScanFault}
    (h : Tiles text first tokens fault) {t t' : Token} (ht : t ∈ tokens) (ht' : t' ∈ tokens)
    (hne : t ≠ t') : t.Apart t' := by
  have hordered : tokens.Pairwise Token.Apart := h.ordered.imp Or.inl
  exact hordered.forall ht ht' hne

/-- What a scan makes of the words of a text. -/
structure ReadsWords (text : Array Char) (scan : Scan) : Prop where
  /-- A token that starts as a word does is the word there. -/
  word : ∀ t ∈ scan.written, StartsWord (t.onward text) →
    t.span text = wordAt (t.onward text) ∧ t.lexeme = ofWord (wordAt (t.onward text))
  /-- It is the whole run, and what the whole run says, just when no reserved word is cut off. -/
  whole : ∀ t ∈ scan.written, StartsWord (t.onward text) →
    ((t.span text = nameRun (t.onward text) ∧ t.lexeme = ofWord (nameRun (t.onward text))) ↔
      ¬ CutsWord (t.onward text))
  /-- No other token takes any of its characters. -/
  apart : ∀ t ∈ scan.written, ∀ t' ∈ scan.written, t ≠ t' → t.Apart t'
  /-- The scanner does not stop before a word. -/
  fault : ∀ f ∈ scan.fault, ¬ StartsWord f.rest

/-- A word of a source is one token, unless it starts with a reserved word that a numeric character
follows; then the reserved word is cut off. -/
theorem ofCursor_words (source : String) :
    ReadsWords source.toList.toArray (ofCursor (.ofString source)) := by
  have htiles := tokensFrom_tiles none (c := .ofString source) _ (Nat.zero_le _) (Nat.le_refl _)
  obtain ⟨htokens, hfault⟩ := tokensFrom_lexemeAt? none (c := .ofString source)
    ((Cursor.ofString source).text.size - (Cursor.ofString source).offset) (Nat.zero_le _)
  change ∀ t ∈ (tokens (.ofString source)).1, ∃ signed,
    lexemeAt? signed (t.onward source.toList.toArray) = _ at htokens
  have hword : ∀ t ∈ (ofCursor (.ofString source)).written,
      StartsWord (t.onward source.toList.toArray) →
        t.span source.toList.toArray = wordAt (t.onward source.toList.toArray) ∧
          t.lexeme = ofWord (wordAt (t.onward source.toList.toArray)) := by
    intro t ht hstarts
    rw [written_ofCursor] at ht
    obtain ⟨signed, hlexeme⟩ := htokens t ht
    have hfound := lexemeAt?_word signed hstarts
    rw [hlexeme, Option.some_inj, Prod.mk_inj] at hfound
    obtain ⟨hsaid, hlength⟩ := hfound
    refine ⟨?_, hsaid⟩
    rw [Token.span_eq, hlength]
    exact (List.prefix_iff_eq_take.1 (wordAt_starts _)).symm
  refine ⟨hword, fun t ht hstarts => ?_, fun t ht t' ht' hne => ?_, fun f hf hstarts => ?_⟩
  · obtain ⟨hspan, hsaid⟩ := hword t ht hstarts
    rw [hspan, hsaid, ← wordAt_eq_nameRun_iff]
    exact ⟨And.left, fun h => ⟨h, by rw [h]⟩⟩
  · rw [written_ofCursor] at ht ht'
    exact htiles.apart ht ht' hne
  · rw [fault_ofCursor] at hf
    obtain ⟨signed, hnone⟩ := hfault f hf
    rw [lexemeAt?_word signed hstarts] at hnone
    cases hnone

/-- A digit right after a reserved word is cut from it, although it is a character of names. -/
theorem words_cut : ¬ ∀ (source : String), ∀ t ∈ (ofCursor (.ofString source)).written,
    StartsWord (t.onward source.toList.toArray) →
      t.span source.toList.toArray = nameRun (t.onward source.toList.toArray) ∧
        t.lexeme = ofWord (nameRun (t.onward source.toList.toArray)) := by
  intro h
  have hfirst : (tokens (.ofString "sin2")).1.head? =
      some ⟨.keyword .sin, ⟨1, 1, 0⟩, ⟨1, 4, 3⟩⟩ := by
    decide +kernel
  have hmem := List.mem_of_head? hfirst
  rw [← written_ofCursor] at hmem
  have hstarts : StartsWord "sin2".toList := ⟨'s', rfl, by decide, by decide, by decide, by decide⟩
  obtain ⟨-, hsaid⟩ := h "sin2" _ hmem hstarts
  exact absurd hsaid (by decide +kernel)

end Scan

end Calculator
