import Calculator.Proofs.Scan.Tiles

/-
  Reading on from a place.  A cursor in the middle of a text never takes the text apart, and yet it
  finds what a cursor before the rest of the text alone finds: each pattern matches the same
  characters, each move consumes the same piece and leaves the same rest, and the scanner gives the
  same lexemes or the same fault.  Only the offsets differ, by what comes before the place
  (`readsSlice`).
-/

namespace Calculator

/-- A match ends at its place or behind it, and within the text. -/
theorem Pattern.matchEnd?_within {p : Pattern} {text : Array Char} {offset stop : Nat}
    (h : offset ≤ text.size) (hstop : p.matchEnd? text offset = some stop) :
    offset ≤ stop ∧ stop ≤ text.size := by
  rw [matchEnd?_eq text p h] at hstop
  obtain ⟨n, hn, rfl⟩ := Option.map_eq_some_iff.1 hstop
  have hle := matchLength?_le hn
  rw [List.length_drop, Array.length_toList] at hle
  exact ⟨Nat.le_add_right offset n, by omega⟩

namespace Cursor

/-! ## Moves -/

/-- A move of a cursor. -/
inductive Move where
  | nibble (p : Pattern)
  | chomp (p : Pattern)

/-- The piece of the text that a move consumes, and the cursor after it. -/
def move (c : Cursor) : Move → List Char × Cursor
  | .nibble p => (c.nibble? p).getD ([], c)
  | .chomp p => ((c.text.extract c.offset (c.chomp p).offset).toList, c.chomp p)

/-- The pieces that some moves consume one after another, and the cursors after them. -/
def moves (c : Cursor) : List Move → List (List Char × Cursor)
  | [] => []
  | m :: ms => c.move m :: (c.move m).2.moves ms

/-- The pattern that a move looks for. -/
def Move.pattern : Move → Pattern
  | nibble p | chomp p => p

variable {c c' : Cursor} {k : Nat}

theorem length_rest (c : Cursor) : c.rest.length = c.text.size - c.offset := by
  rw [rest_eq, List.length_drop, Array.length_toList]

/-- Whether its piece is kept or dropped, a move consumes what its pattern matches. -/
theorem move_eq (h : c.offset ≤ c.text.size) (m : Move) :
    c.move m = ((m.pattern.positiveLength? c.rest).map fun n =>
      (c.rest.take n, { c with offset := c.offset + n })).getD ([], c) := by
  cases m with
  | nibble p => rw [move, nibble?_eq c h, Move.pattern]
  | chomp p =>
    rw [move, chomp, nibble?_eq c h, Move.pattern]
    cases p.positiveLength? c.rest with
    | none => simp
    | some n => simp [rest_eq]

/-- A move goes forward within the text, and takes from what is left the piece that it consumes. -/
theorem move_split (h : c.offset ≤ c.text.size) (m : Move) :
    (c.move m).1 ++ (c.move m).2.rest = c.rest ∧ c.offset ≤ (c.move m).2.offset ∧
      (c.move m).2.offset ≤ (c.move m).2.text.size := by
  rw [move_eq h]
  cases hn : m.pattern.positiveLength? c.rest with
  | none => exact ⟨rfl, Nat.le_refl _, h⟩
  | some n =>
    obtain ⟨-, hle⟩ := Scan.positiveLength?_pos hn
    rw [length_rest] at hle
    refine ⟨?_, Nat.le_add_right _ _, ?_⟩
    · rw [Option.map_some, Option.getD_some, rest_add]
      exact List.take_append_drop n c.rest
    · change c.offset + n ≤ c.text.size
      omega

/-- Moves consume pieces that together with what they leave are the text, and never go back. -/
theorem moves_split (h : c.offset ≤ c.text.size) (ms : List Move) :
    ((c.moves ms).map (·.1)).flatten ++ (((c.moves ms).map (·.2)).getLastD c).rest = c.rest ∧
      (c :: (c.moves ms).map (·.2)).Pairwise (·.offset ≤ ·.offset) := by
  induction ms generalizing c with
  | nil => exact ⟨rfl, List.pairwise_singleton _ _⟩
  | cons m ms ih =>
    obtain ⟨hsplit, hforward, hwithin⟩ := move_split h m
    obtain ⟨hsplits, hordered⟩ := ih hwithin
    constructor
    · rw [moves, List.map_cons, List.map_cons, List.flatten_cons, List.getLastD_cons,
        List.append_assoc, hsplits, hsplit]
    · refine List.pairwise_cons.2 ⟨?_, hordered⟩
      refine List.forall_mem_cons.2 ⟨hforward, fun next hnext => ?_⟩
      exact Nat.le_trans hforward (List.rel_of_pairwise_cons hordered hnext)

/-! ## Two cursors with the same rest -/

/-- The cursor before the text that a cursor has left to read. -/
def cut (c : Cursor) : Cursor := ⟨c.text.extract c.offset c.text.size, 0⟩

/-- A cursor is at the same character as another one whose text lacks the first `k` characters. -/
structure Ahead (k : Nat) (c c' : Cursor) : Prop where
  text : c'.text = c.text.extract k c.text.size
  offset : c.offset = k + c'.offset
  within : c.offset ≤ c.text.size

namespace Ahead

theorem cut (h : c.offset ≤ c.text.size) : Ahead c.offset c c.cut := ⟨rfl, rfl, h⟩

theorem size (h : Ahead k c c') : c'.text.size = c.text.size - k := by
  rw [h.text, Array.size_extract, Nat.min_self]

theorem within' (h : Ahead k c c') : c'.offset ≤ c'.text.size := by
  have hoffset := h.offset
  have hwithin := h.within
  rw [h.size]
  omega

theorem rest (h : Ahead k c c') : c.rest = c'.rest := by
  have htext : c'.text.toList = c.text.toList.drop k := by
    rw [h.text, Array.toList_extract, List.extract_eq_take_drop]
    exact List.take_of_length_le (by simp)
  rw [rest_eq, rest_eq, htext, List.drop_drop, h.offset]

theorem add (h : Ahead k c c') {n : Nat} (hn : n ≤ c.rest.length) :
    Ahead k { c with offset := c.offset + n } { c' with offset := c'.offset + n } := by
  have hoffset := h.offset
  have hwithin := h.within
  rw [length_rest] at hn
  exact ⟨h.text, by dsimp only; omega, by dsimp only; omega⟩

/-- The same move consumes the same piece. -/
theorem move (h : Ahead k c c') (m : Move) :
    (c.move m).1 = (c'.move m).1 ∧ Ahead k (c.move m).2 (c'.move m).2 := by
  rw [move_eq h.within, move_eq h.within', ← h.rest]
  cases hn : m.pattern.positiveLength? c.rest with
  | none => exact ⟨rfl, h⟩
  | some n => exact ⟨rfl, h.add (Scan.positiveLength?_pos hn).2⟩

theorem moves (h : Ahead k c c') (ms : List Move) :
    List.Forall₂ (fun a a' => a.1 = a'.1 ∧ Ahead k a.2 a'.2) (c.moves ms) (c'.moves ms) := by
  induction ms generalizing c c' with
  | nil => exact .nil
  | cons m ms ih => exact .cons (h.move m) (ih (h.move m).2)

end Ahead

end Cursor

/-! ## Tokens -/

/-- A token is another one in a text that lacks the first `k` characters. -/
structure Token.Ahead (k : Nat) (t t' : Token) : Prop where
  lexeme : t.lexeme = t'.lexeme
  start : t.start.offset = k + t'.start.offset
  stop : t.stop.offset = k + t'.stop.offset

/-- So is a fault, with the same message. -/
structure ScanFault.Ahead (k : Nat) (f f' : ScanFault) : Prop where
  rest : f.rest = f'.rest
  offset : f.location.offset = k + f'.location.offset

/-- Either there are two such faults or none. -/
theorem ScanFault.ahead_cases {k : Nat} {fault fault' : Option ScanFault}
    (h : Option.Rel (ScanFault.Ahead k) fault fault') :
    fault = none ∧ fault' = none ∨
      ∃ f f', fault = some f ∧ fault' = some f' ∧ ScanFault.Ahead k f f' := by
  cases h with
  | none => exact .inl ⟨rfl, rfl⟩
  | some hahead => exact .inr ⟨_, _, rfl, rfl, hahead⟩

/-- A place moved forward is at the offset that it was moved to. -/
theorem Location.offset_forward (l : Location) {text : Array Char} {stop : Nat} (h : l.offset ≤ stop)
    (hstop : stop ≤ text.size) : (l.forward text stop).offset = stop := by
  have hfold (cs : List Char) (l : Location) :
      (cs.foldl Location.step l).offset = l.offset + cs.length := by
    induction cs generalizing l with
    | nil => rfl
    | cons c cs ih =>
      have hstep : (l.step c).offset = l.offset + 1 := by
        unfold step
        split <;> rfl
      rw [List.foldl_cons, ih, hstep, List.length_cons]
      omega
  unfold forward
  rw [← Array.foldl_toList, hfold, Array.length_toList, Array.size_extract]
  omega

namespace Scan

open Cursor

variable {c c' : Cursor} {k : Nat}

/-- The tokens after a place are those of the text from there on, and so is the fault. -/
theorem tokensFrom_ahead (h : Cursor.Ahead k c c') (previous : Option Lexeme)
    (place place' : Location) (hplace : place.offset = c.offset) (hplace' : place'.offset = c'.offset)
    (count : Nat) :
    List.Forall₂ (Token.Ahead k) (tokensFrom previous place c count).1
        (tokensFrom previous place' c' count).1 ∧
      Option.Rel (ScanFault.Ahead k) (tokensFrom previous place c count).2
        (tokensFrom previous place' c' count).2 := by
  induction count generalizing previous place place' c c' with
  | zero => exact ⟨.nil, .none⟩
  | succ count ih =>
    have hskip := (h.move (.chomp (.run Text.isBlank))).2
    obtain ⟨-, hforward, -⟩ := move_split h.within (.chomp (.run Text.isBlank))
    obtain ⟨-, hforward', -⟩ := move_split h.within' (.chomp (.run Text.isBlank))
    rw [tokensFrom, tokensFrom]
    dsimp only [Cursor.move] at hskip hforward hforward'
    rw [← hplace] at hforward
    rw [← hplace'] at hforward'
    generalize c.chomp (.run Text.isBlank) = d at hskip hforward ⊢
    generalize c'.chomp (.run Text.isBlank) = d' at hskip hforward' ⊢
    have hstart := place.offset_forward hforward hskip.within
    have hstart' := place'.offset_forward hforward' hskip.within'
    generalize place.forward d.text d.offset = start at hstart ⊢
    generalize place'.forward d'.text d'.offset = start' at hstart' ⊢
    have hshift : start.offset = k + start'.offset := by rw [hstart, hstart', hskip.offset]
    rw [d.isEmpty_eq, d'.isEmpty_eq, hskip.rest]
    cases d'.rest.isEmpty with
    | true => exact ⟨.nil, .none⟩
    | false =>
      simp only [Bool.false_eq_true, if_false, lexeme?_eq _ d hskip.within,
        lexeme?_eq _ d' hskip.within', hskip.rest]
      cases hlexeme : lexemeAt? (allowsSign previous) d'.rest with
      | none => exact ⟨.nil, .some ⟨rfl, hshift⟩⟩
      | some found =>
        obtain ⟨lexeme, n⟩ := found
        have hn : n ≤ d.rest.length := by
          rw [hskip.rest]
          exact (lexemeAt?_pos hlexeme).2
        have hnext := hskip.add hn
        have hstop := start.offset_forward (by rw [hstart]; exact Nat.le_add_right _ n) hnext.within
        have hstop' :=
          start'.offset_forward (by rw [hstart']; exact Nat.le_add_right _ n) hnext.within'
        obtain ⟨htokens, hfault⟩ := ih hnext (some lexeme) _ _ hstop hstop'
        exact ⟨.cons ⟨rfl, hshift, by rw [hstop, hstop', hnext.offset]⟩ htokens, hfault⟩

theorem forall₂_lexeme {tokens tokens' : List Token}
    (h : List.Forall₂ (Token.Ahead k) tokens tokens') :
    tokens.map (·.lexeme) = tokens'.map (·.lexeme) := by
  induction h with
  | nil => rfl
  | cons hhead _ ih => rw [List.map_cons, List.map_cons, hhead.lexeme, ih]

/-- The brackets that a text lacks stand at its end. -/
theorem missing_ahead {text text' : Array Char} {tokens tokens' : List Token}
    (hsize : text.size = k + text'.size) (h : List.Forall₂ (Token.Ahead k) tokens tokens') :
    List.Forall₂ (Token.Ahead k) (missing text tokens) (missing text' tokens') := by
  rw [missing, missing, forall₂_lexeme h]
  generalize closers _ = dues
  induction dues with
  | nil => exact .nil
  | cons closer dues ih => exact .cons ⟨rfl, hsize, hsize⟩ ih

/-- What is read of a text from a place on is what is read of the text that starts there. -/
structure Ahead (k : Nat) (s s' : Scan) : Prop where
  written : List.Forall₂ (Token.Ahead k) s.written s'.written
  supplied : List.Forall₂ (Token.Ahead k) s.supplied s'.supplied
  fault : Option.Rel (ScanFault.Ahead k) s.fault s'.fault

theorem ofCursor_ahead (h : Cursor.Ahead k c c') : Ahead k (ofCursor c) (ofCursor c') := by
  have hoffset := h.offset
  have hwithin := h.within
  have hsize := h.size
  have hcount : c.text.size - c.offset = c'.text.size - c'.offset := by omega
  have htokens : List.Forall₂ (Token.Ahead k) (tokens c).1 (tokens c').1 ∧
      Option.Rel (ScanFault.Ahead k) (tokens c).2 (tokens c').2 := by
    rw [tokens, tokens, ← hcount]
    exact tokensFrom_ahead h none c.location c'.location rfl rfl _
  rw [← written_ofCursor, ← written_ofCursor, ← fault_ofCursor, ← fault_ofCursor] at htokens
  obtain ⟨hwritten, hfault⟩ := htokens
  refine ⟨hwritten, ?_, hfault⟩
  rcases ScanFault.ahead_cases hfault with ⟨hf, hf'⟩ | ⟨f, f', hf, hf', -⟩
  · rw [supplied_eq_missing hf, supplied_eq_missing hf']
    exact missing_ahead (by omega) hwritten
  · rw [supplied_eq_nil hf, supplied_eq_nil hf']
    exact .nil

/-- What a cursor finds from its place on, and a cursor before the rest of the text alone. -/
structure ReadsSlice (c : Cursor) : Prop where
  /-- A pattern matches what it matches in the rest alone. -/
  slice : ∀ p : Pattern, p.matchEnd? c.text c.offset = (p.matchEnd? c.cut.text 0).map (c.offset + ·)
  /-- A match ends at its place or behind it, and within the text. -/
  range : ∀ (p : Pattern) stop, p.matchEnd? c.text c.offset = some stop →
    c.offset ≤ stop ∧ stop ≤ c.text.size
  /-- The pieces that moves consume are, before what is left after them, what was left before. -/
  split : ∀ ms, ((c.moves ms).map (·.1)).flatten ++
    (((c.moves ms).map (·.2)).getLastD c).rest = c.rest
  /-- No move goes back. -/
  ordered : ∀ ms, (c :: (c.moves ms).map (·.2)).Pairwise (·.offset ≤ ·.offset)
  /-- Moves consume the pieces that they consume of the rest alone. -/
  moves : ∀ ms, List.Forall₂
    (fun a a' => a.1 = a'.1 ∧ a.2.rest = a'.2.rest ∧ a.2.offset = c.offset + a'.2.offset)
    (c.moves ms) (c.cut.moves ms)
  /-- The scanner finds the tokens of the rest alone, up to its end or to the same fault. -/
  scan : Ahead c.offset (ofCursor c) (ofCursor c.cut)
  /-- So both have tokens with the same lexemes, or none for the same reason. -/
  tokens : (∃ ts ts', tokenize c = .ok ts ∧ tokenize c.cut = .ok ts' ∧
      List.Forall₂ (Token.Ahead c.offset) ts ts') ∨
    ∃ f f', tokenize c = .error f ∧ tokenize c.cut = .error f' ∧
      (Fault.scan f).message = (Fault.scan f').message ∧
      f.location.offset = c.offset + f'.location.offset

/-- Reading a text from a place on is reading the text that starts there. -/
theorem readsSlice (c : Cursor) (h : c.offset ≤ c.text.size) : ReadsSlice c where
  slice p := by
    have hrest := (Cursor.Ahead.cut h).rest
    rw [rest_eq, rest_eq] at hrest
    rw [Pattern.matchEnd?_eq _ p h, Pattern.matchEnd?_eq c.cut.text p (Nat.zero_le _), hrest]
    simp [Cursor.cut]
  range p stop hstop := Pattern.matchEnd?_within h hstop
  split ms := (moves_split h ms).1
  ordered ms := (moves_split h ms).2
  moves ms := ((Cursor.Ahead.cut h).moves ms).imp fun _ _ ha => ⟨ha.1, ha.2.rest, ha.2.offset⟩
  scan := ofCursor_ahead (.cut h)
  tokens := by
    have hscan := ofCursor_ahead (.cut h)
    rcases ScanFault.ahead_cases hscan.fault with ⟨hf, hf'⟩ | ⟨f, f', hf, hf', hahead⟩
    · refine .inl ⟨_, _, tokenize_eq_ok.2 ⟨hf, rfl⟩, tokenize_eq_ok.2 ⟨hf', rfl⟩, ?_⟩
      exact List.rel_append hscan.written hscan.supplied
    · refine .inr ⟨_, _, tokenize_eq_error hf, tokenize_eq_error hf', ?_, hahead.offset⟩
      rw [message_scan, message_scan, hahead.rest]

/-- `1`, `;` and a line feed, and then `(x`. -/
def secondLine : Cursor := ⟨#['1', ';', '\n', '(', 'x'], 3⟩

theorem tokenize_secondLine : tokenize secondLine = .ok [
    ⟨.symbol .openParen, ⟨2, 1, 3⟩, ⟨2, 2, 4⟩⟩, ⟨.identifier "x", ⟨2, 2, 4⟩, ⟨2, 3, 5⟩⟩,
    ⟨.symbol .closeParen, ⟨2, 3, 5⟩, ⟨2, 3, 5⟩⟩] := by
  cbv

/-- The second line has its tokens, the supplied bracket among them, three characters later than it
has them alone. -/
theorem readsSlice_secondLine : secondLine.offset ≤ secondLine.text.size ∧
    ∃ ts ts', tokenize secondLine = .ok ts ∧ tokenize secondLine.cut = .ok ts' ∧
      List.Forall₂ (Token.Ahead 3) ts ts' ∧ ts.map (·.lexeme) =
        [.symbol .openParen, .identifier "x", .symbol .closeParen] := by
  refine ⟨by decide, ?_⟩
  rcases (readsSlice secondLine (by decide)).tokens with ⟨ts, ts', hts, hts', hahead⟩ | ⟨f, -, hf, -⟩
  · refine ⟨ts, ts', hts, hts', hahead, ?_⟩
    obtain rfl := Except.ok.inj (tokenize_secondLine.symm.trans hts)
    rfl
  · cases tokenize_secondLine.symm.trans hf

end Scan

end Calculator
