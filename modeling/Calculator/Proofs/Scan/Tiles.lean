import Calculator.Program
import Calculator.Proofs.Scan.Brackets
import Calculator.Proofs.Scan.Spelling
import Calculator.Proofs.Text.Location

/-
  How tokens lie in a text.  From any place on, the text is blanks, the characters of a token, blanks
  again, and so on, up to its end or to a character that no token starts with (`Tiles`).  So spans
  follow one another without overlap, all between them is blank, each span has the lexeme of its text,
  and a fault stands at the first character that was not read (`ofCursor_tiling`).
-/

namespace Calculator

/-- The characters that a token takes up. -/
def Token.span (t : Token) (text : Array Char) : List Char :=
  (text.extract t.start.offset t.stop.offset).toList

namespace Scan

variable {text : Array Char} {first : Nat} {tokens : List Token} {fault : Option ScanFault}

/-! ## Tiles -/

/-- All characters from an offset up to a later one are blank. -/
def Blank (text : Array Char) (first last : Nat) : Prop :=
  first ≤ last ∧ ∀ i c, first ≤ i → i < last → text[i]? = some c → Text.isBlank c = true

/-- Tokens, and the fault after them if there is one, that a text consists of from an offset on. -/
inductive Tiles (text : Array Char) : Nat → List Token → Option ScanFault → Prop where
  | done {first : Nat} (hblank : Blank text first text.size) : Tiles text first [] none
  | stuck {first place : Nat} {c : Char} (hblank : Blank text first place)
      (hc : text[place]? = some c) (h : Text.isBlank c = false) :
      Tiles text first [] (some ⟨text.toList.drop place, .ofOffset text place⟩)
  | token {first start stop : Nat} {tokens : List Token} {fault : Option ScanFault}
      (hblank : Blank text first start) (hlt : start < stop) (hle : stop ≤ text.size)
      (h : Tiles text stop tokens fault) :
      Tiles text first (⟨.ofText (text.extract start stop).toList, .ofOffset text start,
        .ofOffset text stop⟩ :: tokens) fault

/-- How far a text was read: up to the fault, or to its end. -/
def reached (text : Array Char) (fault : Option ScanFault) : Nat :=
  fault.elim text.size (·.location.offset)

theorem Tiles.first_le (h : Tiles text first tokens fault) : first ≤ reached text fault := by
  induction h with
  | done hblank => exact hblank.1
  | stuck hblank hc h => exact hblank.1
  | token hblank hlt hle h ih => exact Nat.le_trans (Nat.le_trans hblank.1 (Nat.le_of_lt hlt)) ih

theorem Tiles.spans (h : Tiles text first tokens fault) : ∀ t ∈ tokens, first ≤ t.start.offset ∧
    t.start.offset < t.stop.offset ∧ t.stop.offset ≤ reached text fault := by
  induction h with
  | done hblank => exact List.forall_mem_nil _
  | stuck hblank hc h => exact List.forall_mem_nil _
  | @token first start stop tokens fault hblank hlt hle h ih =>
    refine List.forall_mem_cons.2 ⟨⟨hblank.1, hlt, h.first_le⟩, fun t ht => ?_⟩
    obtain ⟨hstart, hspan⟩ := ih t ht
    exact ⟨Nat.le_trans (Nat.le_trans hblank.1 (Nat.le_of_lt hlt)) hstart, hspan⟩

theorem Tiles.ordered (h : Tiles text first tokens fault) :
    tokens.Pairwise fun t t' => t.stop.offset ≤ t'.start.offset := by
  induction h with
  | done hblank => exact .nil
  | stuck hblank hc h => exact .nil
  | token hblank hlt hle h ih => exact .cons (fun t ht => (h.spans t ht).1) ih

/-- A character that was read and lies in no span is blank. -/
theorem Tiles.blank (h : Tiles text first tokens fault) {i : Nat} {c : Char} (hfirst : first ≤ i)
    (hlast : i < reached text fault) (hc : text[i]? = some c)
    (hout : ∀ t ∈ tokens, i < t.start.offset ∨ t.stop.offset ≤ i) : Text.isBlank c = true := by
  induction h with
  | done hblank => exact hblank.2 i c hfirst hlast hc
  | stuck hblank hc' h => exact hblank.2 i c hfirst hlast hc
  | token hblank hlt hle h ih =>
    obtain ⟨hfirst', hothers⟩ := List.forall_mem_cons.1 hout
    rcases hfirst' with hbefore | hafter
    · exact hblank.2 i c hfirst hbefore hc
    · exact ih hafter hlast hothers

/-- Each token is where it says it is, and what its text says. -/
theorem Tiles.texts (h : Tiles text first tokens fault) : ∀ t ∈ tokens,
    t.lexeme = .ofText (t.span text) ∧ t.start = .ofOffset text t.start.offset ∧
      t.stop = .ofOffset text t.stop.offset := by
  induction h with
  | done hblank => exact List.forall_mem_nil _
  | stuck hblank hc h => exact List.forall_mem_nil _
  | token hblank hlt hle h ih => exact List.forall_mem_cons.2 ⟨⟨rfl, rfl, rfl⟩, ih⟩

/-- A fault stands where the text goes on with a character that is not blank. -/
theorem Tiles.faulty {f : ScanFault} (h : Tiles text first tokens (some f)) :
    f.location = .ofOffset text f.location.offset ∧ ∃ c others,
      text.toList.drop f.location.offset = c :: others ∧ f.rest = c :: others ∧
        Text.isBlank c = false := by
  generalize hf : some f = fault at h
  induction h with
  | done hblank => cases hf
  | @stuck first place c hblank hc h =>
    cases hf
    obtain ⟨hlt, rfl⟩ := Array.getElem?_eq_some_iff.1 hc
    exact ⟨rfl, _, _, Pattern.drop_eq_cons text hlt, Pattern.drop_eq_cons text hlt, h⟩
  | token hblank hlt hle h ih => exact ih hf

/-! ## The scanner -/

/-- Skipping blanks stops at the end or before a character that is not blank. -/
theorem chomp_isBlank (c : Cursor) (hc : c.offset ≤ c.text.size) :
    ∃ start, c.chomp (.run Text.isBlank) = { c with offset := start } ∧
      Blank c.text c.offset start ∧ start ≤ c.text.size ∧
      ∀ x ∈ (c.text.toList.drop start).head?, Text.isBlank x = false := by
  obtain ⟨hrest, hsize⟩ := chomp_blank c hc
  rw [c.chomp_run hc] at hrest hsize ⊢
  refine ⟨_, rfl, ⟨Nat.le_add_right _ _, fun i x hfirst hlast hx => ?_⟩, hsize, ?_⟩
  · obtain ⟨k, rfl⟩ := Nat.exists_eq_add_of_le hfirst
    have hk : k < (c.rest.takeWhile Text.isBlank).length := by omega
    have hx' : c.rest[k]? = some x := by
      rw [Cursor.rest_eq, List.getElem?_drop, Array.getElem?_toList]
      exact hx
    rw [← List.takeWhile_append_dropWhile (p := Text.isBlank) (l := c.rest),
      List.getElem?_append_left hk] at hx'
    exact List.all_eq_true.1 List.all_takeWhile x (List.mem_of_getElem? hx')
  · rw [← Cursor.rest_eq { c with offset := _ }, hrest]
    exact skipped_head _

/-- What the scanner does from a place on: after blanks it is at the end of the text, or it is stuck,
or it makes a token and goes on behind it. -/
theorem tokensFrom_step (previous : Option Lexeme) {c : Cursor} (count : Nat)
    (hc : c.offset ≤ c.text.size) : ∃ start, Blank c.text c.offset start ∧ start ≤ c.text.size ∧
      (∀ x ∈ (c.text.toList.drop start).head?, Text.isBlank x = false) ∧
      ((start = c.text.size ∧
          tokensFrom previous (.ofOffset c.text c.offset) c (count + 1) = ([], none)) ∨
        (start < c.text.size ∧
          lexemeAt? (allowsSign previous) (c.text.toList.drop start) = none ∧
          tokensFrom previous (.ofOffset c.text c.offset) c (count + 1) =
            ([], some ⟨c.text.toList.drop start, .ofOffset c.text start⟩)) ∨
        ∃ lexeme n, lexemeAt? (allowsSign previous) (c.text.toList.drop start) = some (lexeme, n) ∧
          0 < n ∧ start + n ≤ c.text.size ∧
          tokensFrom previous (.ofOffset c.text c.offset) c (count + 1) =
            let others := tokensFrom (some lexeme) (.ofOffset c.text (start + n))
              ⟨c.text, start + n⟩ count
            (⟨lexeme, .ofOffset c.text start, .ofOffset c.text (start + n)⟩ :: others.1,
              others.2)) := by
  obtain ⟨text, offset⟩ := c
  obtain ⟨start, hchomp, hblank, hstart, hhead⟩ := chomp_isBlank ⟨text, offset⟩ hc
  have hplace := Location.forward_ofOffset hblank.1 hstart
  refine ⟨start, hblank, hstart, hhead, ?_⟩
  rw [tokensFrom, hchomp]
  dsimp only at hblank hstart hhead hplace ⊢
  rw [hplace]
  split
  · next hempty => exact .inl ⟨Nat.le_antisymm hstart (of_decide_eq_true hempty), rfl⟩
  next hnonempty =>
  have hlt : start < text.size := Nat.lt_of_not_le fun hle => hnonempty (decide_eq_true hle)
  have hrest : Cursor.rest ⟨text, start⟩ = text.toList.drop start := Cursor.rest_eq _
  rw [lexeme?_eq _ _ hstart, hrest]
  cases hlexeme : lexemeAt? (allowsSign previous) (text.toList.drop start) with
  | none => exact .inr (.inl ⟨hlt, rfl, rfl⟩)
  | some found =>
    obtain ⟨lexeme, n⟩ := found
    obtain ⟨hpos, hn⟩ := lexemeAt?_pos hlexeme
    have hstop : start + n ≤ text.size := by
      rw [List.length_drop, Array.length_toList] at hn
      omega
    refine .inr (.inr ⟨lexeme, n, rfl, hpos, hstop, ?_⟩)
    rw [Option.map_some]
    dsimp only
    rw [Location.forward_ofOffset (Nat.le_add_right start n) hstop]

/-- The scanner gives tokens that tile the text. -/
theorem tokensFrom_tiles (previous : Option Lexeme) {c : Cursor} (count : Nat)
    (hc : c.offset ≤ c.text.size) (hcount : c.text.size - c.offset ≤ count) :
    Tiles c.text c.offset (tokensFrom previous (.ofOffset c.text c.offset) c count).1
      (tokensFrom previous (.ofOffset c.text c.offset) c count).2 := by
  induction count generalizing previous c with
  | zero =>
    refine .done ⟨hc, fun i x hfirst hlast => ?_⟩
    omega
  | succ count ih =>
    obtain ⟨start, hblank, hstart, hhead, ⟨rfl, heq⟩ | ⟨hlt, hnone, heq⟩ |
      ⟨lexeme, n, hlexeme, hpos, hstop, heq⟩⟩ := tokensFrom_step previous count hc
    · rw [heq]
      exact .done hblank
    · rw [heq]
      exact .stuck hblank (Array.getElem?_eq_getElem hlt)
        (hhead _ (by rw [Pattern.head?_drop, Array.getElem?_eq_getElem hlt]; rfl))
    · have hlexeme' := lexemeAt?_ofText hhead hlexeme
      rw [← Pattern.extract_add] at hlexeme'
      have hcount' : c.text.size - (start + n) ≤ count := by
        have hle : c.offset ≤ start := hblank.1
        omega
      have hothers := ih (some lexeme) (c := ⟨c.text, start + n⟩) hstop hcount'
      rw [heq, ← hlexeme'] at *
      exact .token hblank (by omega) hstop hothers

/-- The written tokens of a source tile the whole of it. -/
theorem tiles_ofCursor (source : String) : Tiles source.toList.toArray 0
    (ofCursor (.ofString source)).written (ofCursor (.ofString source)).fault := by
  rw [written_ofCursor, fault_ofCursor]
  exact tokensFrom_tiles none (c := .ofString source) _ (Nat.zero_le _) (Nat.le_refl _)

theorem message_scan (f : ScanFault) : (Fault.scan f).message =
    "LexerError: could not interpret input tokens: Could not parse: ".toList ++ f.rest := by
  have hstage : "LexerError: could not interpret input tokens: Could not parse: ".toList =
      "LexerError".toList ++ ':' :: ' ' :: "could not interpret input tokens".toList ++
        ':' :: ' ' :: "Could not parse: ".toList := by decide
  rw [hstage, List.append_assoc]
  rfl

/-- What a scan of a source says about it. -/
structure Tiling (source : String) (text : Array Char) (scan : Scan) : Prop where
  /-- No span is empty, and none ends after what was read. -/
  spans : ∀ t ∈ scan.written,
    t.start.offset < t.stop.offset ∧ t.stop.offset ≤ reached text scan.fault
  /-- A span ends before the next one starts. -/
  ordered : scan.written.Pairwise fun t t' => t.stop.offset ≤ t'.start.offset
  /-- Whatever was read outside the spans is blank. -/
  blank : ∀ i c, i < reached text scan.fault → text[i]? = some c →
    (∀ t ∈ scan.written, i < t.start.offset ∨ t.stop.offset ≤ i) → Text.isBlank c = true
  /-- The text of a span tells the lexeme, and the places are those of the offsets. -/
  tokens : ∀ t ∈ scan.written, t.lexeme = .ofText (t.span text) ∧
    t.start = .ofOffset text t.start.offset ∧ t.stop = .ofOffset text t.stop.offset
  /-- Without a fault, the closing brackets that are supplied come last, at the end of the text. -/
  supplied : scan.fault = none →
    tokenize (.ofString source) = .ok (scan.written ++ scan.supplied) ∧
      ∀ t ∈ scan.supplied, (t.lexeme = .symbol .closeParen ∨ t.lexeme = .symbol .closeBrace) ∧
        t.start = .ofOffset text text.size ∧ t.stop = .ofOffset text text.size
  /-- A fault stands at the first character that was not read, and its message ends with the text
  from there on. -/
  fault : ∀ f, scan.fault = some f → tokenize (.ofString source) = .error f ∧
    scan.supplied = [] ∧ f.location = .ofOffset text f.location.offset ∧
      ∃ c others, text.toList.drop f.location.offset = c :: others ∧ Text.isBlank c = false ∧
        (Fault.scan f).message =
          "LexerError: could not interpret input tokens: Could not parse: ".toList ++ c :: others

/-- The tokens of a source tile it: spans in order, blanks between them, supplied brackets at the
end, and a fault at the first character that was not read. -/
theorem ofCursor_tiling (source : String) :
    Tiling source source.toList.toArray (ofCursor (.ofString source)) := by
  have htiles := tiles_ofCursor source
  refine ⟨fun t ht => (htiles.spans t ht).2, htiles.ordered,
    fun i c hi hc => htiles.blank (Nat.zero_le i) hi hc, htiles.texts, fun h => ?_, fun f hf => ?_⟩
  · refine ⟨tokenize_eq_ok.2 ⟨h, rfl⟩, fun t ht => ?_⟩
    rw [supplied_eq_missing h] at ht
    obtain ⟨closer, hcloser, rfl⟩ := List.mem_map.1 ht
    refine ⟨?_, rfl, rfl⟩
    rcases closers_mem _ closer hcloser with rfl | rfl
    · exact .inl rfl
    · exact .inr rfl
  · rw [hf] at htiles
    obtain ⟨hplace, c, others, hdrop, hrest, hblank⟩ := htiles.faulty
    refine ⟨tokenize_eq_error hf, supplied_eq_nil hf, hplace, c, others, hdrop, hblank, ?_⟩
    rw [message_scan, hrest]

end Scan

end Calculator
