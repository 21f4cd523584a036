import Calculator.Proofs.Expr.Places
import Calculator.Proofs.Program.RoundTrip
import Calculator.Proofs.Scan.Tiles
import Calculator.Proofs.Text.Lines
import Calculator.Report

/-
  Carets under faults.  A fault of a source that has a place stands where the source could not be
  read on, at a token, or at the end.  The caret of its report is under that place wherever line
  feeds tell the lines, as they do for the place (`pointsAt`); what else ends a line that is shown
  moves the caret to another character (`caret_astray`).
-/

namespace Calculator

namespace Text

/-- The line that an offset is in: all between the line feeds around it. -/
def lineAt (cs : List Char) (offset : Nat) : List Char :=
  (cs.drop (Location.lineStart cs.toArray offset)).takeWhile (· != '\n')

/-- Line feeds tell the lines of a text up to the one that an offset is in. -/
structure FeedLines (cs : List Char) (offset : Nat) : Prop where
  /-- Nothing else ends a line before that one, but for carriage returns right before line feeds. -/
  before : FeedsOnly (cs.take (Location.lineStart cs.toArray offset))
  /-- Nothing in that line ends one. -/
  line : ∀ c ∈ lineAt cs offset, endsLine c = false
  /-- That line is not the empty one after a last line feed. -/
  last : Location.lineStart cs.toArray offset < cs.length

variable {cs : List Char} {offset : Nat}

/-- What comes before and after the line of an offset. -/
structure Cut (cs : List Char) (offset : Nat) (before after : List Char) : Prop where
  text : cs = before ++ (lineAt cs offset ++ after)
  start : before.length = Location.lineStart cs.toArray offset
  /-- No line feed stands between the start of the line and the offset. -/
  feeds : (cs.take offset).count '\n' = before.count '\n'
  column : offset - Location.lineStart cs.toArray offset ≤ (lineAt cs offset).length
  before : before = [] ∨ before.getLast? = some '\n'
  after : after = [] ∨ after.head? = some '\n'

theorem exists_cut (h : offset ≤ cs.length) : ∃ before after, Cut cs offset before after := by
  obtain ⟨before, first, htake, hlength, hfirst, hlast⟩ := Location.lineStart_split h
  have hcs : cs = before ++ (first ++ cs.drop offset) := by
    rw [← List.append_assoc, ← htake, List.take_append_drop]
  have hline : lineAt cs offset = first ++ (cs.drop offset).takeWhile (· != '\n') := by
    have hinside : ∀ c ∈ first, (c != '\n') = true := fun c hc =>
      bne_iff_ne.2 fun heq => hfirst (heq ▸ hc)
    have hdrop : cs.drop before.length = first ++ cs.drop offset := by
      conv_lhs => rw [hcs]
      exact List.drop_left
    rw [lineAt, ← hlength, hdrop, List.takeWhile_append_of_pos hinside]
  refine ⟨before, (cs.drop offset).dropWhile (· != '\n'), ?_, hlength, ?_, ?_, hlast, ?_⟩
  · rw [hline, List.append_assoc, List.takeWhile_append_dropWhile]
    exact hcs
  · rw [htake, List.count_append, List.count_eq_zero.2 hfirst, Nat.add_zero]
  · have hoffset : before.length + first.length = offset := by
      rw [← List.length_append, ← htake, List.length_take_of_le h]
    rw [hline, List.length_append, ← hlength]
    omega
  · cases hrest : (cs.drop offset).dropWhile (· != '\n') with
    | nil => exact .inl rfl
    | cons c rest =>
      have hc := List.head?_dropWhile_not (· != '\n') (cs.drop offset)
      rw [hrest] at hc
      exact .inr (congrArg some (bne_eq_false_iff_eq.1 hc))

/-- The line of an offset is the line of that number among the lines that are shown. -/
theorem FeedLines.getElem? (hlines : FeedLines cs offset) (h : offset ≤ cs.length) :
    (lines cs)[(cs.take offset).count '\n']? = some (lineAt cs offset) ∧
      (cs.take offset).count '\n' < (lines cs).length := by
  obtain ⟨before, after, hcut⟩ := exists_cut h
  have hbefore : cs.take (Location.lineStart cs.toArray offset) = before := by
    rw [← hcut.start]
    conv_lhs => rw [hcut.text]
    exact List.take_left
  have hnonempty : after = [] ∧ lineAt cs offset ≠ [] ∨ after.head? = some '\n' := by
    refine hcut.after.imp_left fun hnil => ⟨hnil, fun hempty => ?_⟩
    have hend := congrArg List.length hcut.text
    rw [hempty, hnil, List.append_nil, List.append_nil, hcut.start] at hend
    exact absurd hlines.last (by omega)
  obtain ⟨ls, ls', hls, hnumber⟩ :=
    lines_eq (hbefore ▸ hlines.before) hcut.before hlines.line hnonempty
  rw [← hcut.text] at hls
  rw [hcut.feeds, ← hnumber, hls]
  exact ⟨by simp, by simp⟩

end Text

namespace Report

/-- A line, highlighted from a column on. -/
def upper (highlight : Highlighter) (line : List Char) (column : Nat) (colour : Colour) :
    List Char :=
  ' ' :: ' ' :: line.take column ++ highlight colour (line.drop column)

/-- A line, highlighted from a column on, with a caret under that. -/
def pointing (highlight : Highlighter) (line : List Char) (column : Nat) (colour : Colour) :
    List Char :=
  upper highlight line column colour ++
    '\n' :: ' ' :: ' ' :: List.replicate column ' ' ++ highlight colour ['^']

/-- The line of an offset with a caret under that offset. -/
def caretUnder (highlight : Highlighter) (source : List Char) (offset : Nat) (colour : Colour) :
    List Char :=
  pointing highlight (Text.lineAt source offset)
    (offset - Location.lineStart source.toArray offset) colour

variable {highlight : Highlighter} {source : List Char} {offset : Nat} {colour : Colour}

theorem count_extract (cs : List Char) (offset : Nat) :
    (cs.toArray.extract 0 offset).count '\n' = (cs.take offset).count '\n' := by
  rw [← Array.count_toList, Array.toList_extract, List.extract_eq_take_drop]
  rfl

theorem marked_eq_caretUnder (h : offset ≤ source.length) (hlines : Text.FeedLines source offset) :
    marked highlight source (.ofOffset source.toArray offset) colour =
      caretUnder highlight source offset colour := by
  obtain ⟨hline, hnumber⟩ := hlines.getElem? h
  obtain ⟨_, _, hcut⟩ := Text.exists_cut h
  have hsize : min offset source.toArray.size = offset := Nat.min_eq_left h
  unfold marked Location.ofOffset
  dsimp only
  rw [count_extract, hsize, Nat.min_eq_left hnumber, Nat.add_sub_cancel, Nat.succ_sub_one, hline,
    Option.getD_some, Nat.min_eq_left hcut.column]
  rfl

/-- On the empty line after a last line feed the caret is under the start of the line before. -/
theorem marked_after (hfeeds : Text.FeedsOnly source) (hlast : source.getLast? = some '\n') :
    marked highlight source (.ofOffset source.toArray source.length) colour =
      pointing highlight ((Text.lines source).getLast?.getD []) 0 colour := by
  obtain ⟨ls, hls, hnumber⟩ := Text.linesFrom_append hfeeds hlast [] []
  have hlines : Text.lines source = ls := by
    rw [List.append_nil] at hls
    exact hls.trans (List.append_nil ls)
  have hstart : Location.lineStart source.toArray source.length = source.length := by
    obtain ⟨before, rfl⟩ := List.getLast?_eq_some_iff.1 hlast
    rw [List.length_append, List.length_singleton, Location.lineStart]
    exact if_pos (by simp)
  unfold marked Location.ofOffset
  dsimp only
  rw [count_extract, List.take_length, List.size_toArray, Nat.min_self, hstart, Nat.sub_self,
    hlines, ← hnumber, Nat.min_eq_right (Nat.le_succ _), Nat.zero_add, Nat.sub_self, Nat.zero_min,
    List.getLast?_eq_getElem?]
  rfl

/-! ## Astray -/

/-- Highlighting adds nothing that ends a line, and drops nothing that does. -/
def KeepsLineEnds (highlight : Highlighter) : Prop :=
  ∀ (colour : Colour) (text : List Char) (c : Char), Text.endsLine c = true →
    (c ∈ highlight colour text ↔ c ∈ text)

/-- So it does when it puts a text between marks that end no line. -/
theorem keepsLineEnds_between {opening closing : Colour → List Char}
    (hopening : ∀ colour, ∀ c ∈ opening colour, Text.endsLine c = false)
    (hclosing : ∀ colour, ∀ c ∈ closing colour, Text.endsLine c = false) :
    KeepsLineEnds fun colour text => opening colour ++ text ++ closing colour := by
  intro colour text c hc
  have houtside {mark : List Char} (h : ∀ c ∈ mark, Text.endsLine c = false) : c ∉ mark :=
    fun hmem => absurd hc (Bool.eq_false_iff.1 (h c hmem))
  simp [houtside (hopening colour), houtside (hclosing colour)]

section Astray

variable (hkeeps : KeepsLineEnds highlight)
include hkeeps

theorem mem_upper {line : List Char} {column : Nat} {c : Char} (hc : Text.endsLine c = true) :
    c ∈ upper highlight line column colour ↔ c ∈ line := by
  have hblank : c ≠ ' ' := by
    rintro rfl
    cases hc
  have hparts : c ∈ line.take column ∨ c ∈ line.drop column ↔ c ∈ line := by
    rw [← List.mem_append, List.take_append_drop]
  simp [upper, hkeeps _ _ _ hc, hblank, hparts]

/-- The upper line of a report is what comes before the first line feed. -/
theorem takeWhile_pointing {line : List Char} (h : '\n' ∉ line) (column : Nat) :
    (pointing highlight line column colour).takeWhile (· != '\n') =
      upper highlight line column colour := by
  have hfeed : ∀ c ∈ upper highlight line column colour, (c != '\n') = true := fun c hc =>
    bne_iff_ne.2 fun heq => h ((mem_upper hkeeps rfl).1 (heq ▸ hc))
  rw [pointing, List.append_assoc, List.takeWhile_append_of_pos hfeed, List.cons_append,
    List.takeWhile_cons_of_neg (by simp), List.append_nil]

/-- Where something else in the line of an offset ends a line, another line is shown. -/
theorem marked_ne_caretUnder {c : Char} (hmem : c ∈ Text.lineAt source offset)
    (hc : Text.endsLine c = true) (place : Location) :
    marked highlight source place colour ≠ caretUnder highlight source offset colour := by
  intro heq
  obtain ⟨shown, column, hmarked, hshown⟩ : ∃ shown column,
      marked highlight source place colour = pointing highlight shown column colour ∧
        ∀ c ∈ shown, Text.endsLine c = false := by
    refine ⟨_, _, rfl, ?_⟩
    cases hline : (Text.lines source)[min place.line (Text.lines source).length - 1]? with
    | none => exact List.forall_mem_nil _
    | some line => exact Text.endsLine_of_mem_lines (List.mem_of_getElem? hline)
  have hinside : ∀ c ∈ Text.lineAt source offset, (c != '\n') = true :=
    fun c hc => List.all_eq_true.1 List.all_takeWhile c hc
  have hupper := congrArg (List.takeWhile (· != '\n')) (hmarked.symm.trans heq)
  rw [caretUnder, takeWhile_pointing hkeeps fun h => absurd (hshown _ h) (by decide),
    takeWhile_pointing hkeeps fun h => absurd (hinside _ h) (by decide)] at hupper
  have hmem' := (mem_upper hkeeps hc).1 (hupper ▸ (mem_upper hkeeps hc).2 hmem)
  rw [hshown c hmem'] at hc
  cases hc

end Astray

end Report

open Scan

/-- What a fault of a source stands at. -/
inductive StandsAt (source : String) : Fault → Nat → Prop where
  /-- Characters that no token starts with. -/
  | rest {cause : ScanFault} {offset : Nat} (h : source.toList.drop offset = cause.rest)
      (hrest : cause.rest ≠ []) : StandsAt source (.scan cause) offset
  /-- A token that is written in the source. -/
  | token {cause : ParseFault} {t : Token} (h : cause.token? = some t)
      (ht : t ∈ (ofCursor (.ofString source)).written)
      (hlexeme : t.lexeme = .ofText (t.span source.toList.toArray))
      (hstop : t.start.offset < t.stop.offset) : StandsAt source (.parse cause) t.start.offset
  /-- The end, where a closing bracket was supplied. -/
  | supplied {cause : ParseFault} {t : Token} (h : cause.token? = some t)
      (ht : t ∈ (ofCursor (.ofString source)).supplied) :
      StandsAt source (.parse cause) source.toList.length

/-- The place of a fault of a source, and where its report puts the caret. -/
structure PointsAt (source : String) (fault : Fault) (place : Location) : Prop where
  /-- The place is that of its offset, and the fault stands there. -/
  stands : place = .ofOffset source.toList.toArray place.offset ∧
    place.offset ≤ source.toList.length ∧ StandsAt source fault place.offset
  /-- Where line feeds tell the lines the caret is under the place. -/
  marked : Text.FeedLines source.toList place.offset → ∀ highlight colour,
    Report.marked highlight source.toList place colour =
      Report.caretUnder highlight source.toList place.offset colour
  /-- On the empty line after a last line feed it is under the start of the line before. -/
  after : Text.FeedsOnly source.toList → source.toList.getLast? = some '\n' →
    place.offset = source.toList.length → ∀ highlight colour,
      Report.marked highlight source.toList place colour =
        Report.pointing highlight ((Text.lines source.toList).getLast?.getD []) 0 colour
  /-- Where something else ends a line within that of the place, it is not under the place. -/
  astray : ∀ c ∈ Text.lineAt source.toList place.offset, Text.endsLine c = true →
    ∀ highlight, Report.KeepsLineEnds highlight → ∀ colour,
      Report.marked highlight source.toList place colour ≠
        Report.caretUnder highlight source.toList place.offset colour

/-- A fault of compiling that has a place is one of scanning or of reading tokens. -/
theorem compileSource_located [Limits] {source : String} {fault : Fault} {place : Location}
    (h : compileSource source = .error fault) (hplace : fault.location? = some place) :
    (∃ cause, (ofCursor (.ofString source)).fault = some cause ∧ fault = .scan cause) ∨
      ∃ cause, (ofCursor (.ofString source)).fault = none ∧
        Expr.ofTokens (ofCursor (.ofString source)).all = .error cause ∧ fault = .parse cause := by
  cases hscan : (ofCursor (.ofString source)).fault with
  | some cause =>
    have hparse : parseSource source = .error (.scan cause) := by
      rw [parseSource, tokensOf, tokenize_eq_error hscan]
      rfl
    rw [compileSource, hparse] at h
    exact .inl ⟨cause, rfl, (Except.error.inj h).symm⟩
  | none =>
    rw [compileSource, parseSource_of_tokenize (tokenize_eq_ok.2 ⟨hscan, rfl⟩)] at h
    cases htokens : Expr.ofTokens (ofCursor (.ofString source)).all with
    | error cause =>
      rw [htokens] at h
      exact .inr ⟨cause, rfl, rfl, (Except.error.inj h).symm⟩
    | ok e =>
      rw [htokens] at h
      change e.toCode.mapError Fault.code = .error fault at h
      cases hcode : e.toCode with
      | ok code =>
        rw [hcode] at h
        cases h
      | error cause =>
        rw [hcode] at h
        cases h
        cases hplace

theorem standsAt_of_located [Limits] {source : String} {fault : Fault} {place : Location}
    (h : compileSource source = .error fault) (hplace : fault.location? = some place) :
    place = .ofOffset source.toList.toArray place.offset ∧
      place.offset ≤ source.toList.length ∧ StandsAt source fault place.offset := by
  have htiles := tiles_ofCursor source
  rcases compileSource_located h hplace with ⟨cause, hfault, rfl⟩ | ⟨cause, hfault, hparse, rfl⟩
  · obtain rfl := Option.some.inj hplace
    rw [hfault] at htiles
    obtain ⟨heq, c, others, hdrop, hrest, -⟩ := htiles.faulty
    have hlt : cause.location.offset < source.toList.length := Nat.lt_of_not_le fun hle => by
      rw [List.drop_eq_nil_of_le hle] at hdrop
      cases hdrop
    exact ⟨heq, Nat.le_of_lt hlt, .rest (hdrop.trans hrest.symm) (by rw [hrest]; nofun)⟩
  · obtain ⟨t, ht, rfl⟩ := Option.map_eq_some_iff.1 hplace
    rcases List.mem_append.1 (cause.mem_of_token? hparse ht) with hmem | hmem
    · obtain ⟨hlexeme, hstart, -⟩ := htiles.texts t hmem
      obtain ⟨-, hstop, hreached⟩ := htiles.spans t hmem
      rw [hfault] at hreached
      refine ⟨hstart, ?_, .token ht hmem hlexeme hstop⟩
      exact Nat.le_of_lt (Nat.lt_of_lt_of_le hstop hreached)
    · have hend : t.start = .ofOffset source.toList.toArray source.toList.length := by
        rw [supplied_eq_missing hfault] at hmem
        obtain ⟨closer, -, rfl⟩ := List.mem_map.1 hmem
        rfl
      rw [hend]
      exact ⟨rfl, Nat.le_refl _, .supplied ht hmem⟩

/-- The caret under a fault of a source is where the fault stands, as long as line feeds tell the
lines. -/
theorem pointsAt [Limits] {source : String} {fault : Fault} {place : Location}
    (h : compileSource source = .error fault) (hplace : fault.location? = some place) :
    PointsAt source fault place := by
  obtain ⟨heq, hle, hstands⟩ := standsAt_of_located h hplace
  refine ⟨⟨heq, hle, hstands⟩, fun hlines highlight colour => ?_,
    fun hfeeds hlast hend highlight colour => ?_, fun c hmem hc highlight hkeeps colour => ?_⟩
  · rw [heq]
    exact Report.marked_eq_caretUnder hle hlines
  · rw [heq, hend]
    exact Report.marked_after hfeeds hlast
  · exact Report.marked_ne_caretUnder hkeeps hmem hc place

set_option maxRecDepth 4000 in
theorem compileSource_separated :
    compileSource "x\u2028$" = .error (.scan ⟨['$'], ⟨1, 3, 2⟩⟩) := by
  cbv

set_option maxRecDepth 4000 in
/-- A character that no token starts with, on the second line and after a line separator. -/
theorem pointsAt_second : compileSource "x\n$" = .error (.scan ⟨['$'], ⟨2, 1, 2⟩⟩) ∧
    Report.marked Report.plain "x\n$".toList ⟨2, 1, 2⟩ .red =
      Report.caretUnder Report.plain "x\n$".toList 2 .red ∧
    Report.marked (fun _ text => ['*'] ++ text ++ ['*']) "x\u2028$".toList ⟨1, 3, 2⟩ .red ≠
      Report.caretUnder (fun _ text => ['*'] ++ text ++ ['*']) "x\u2028$".toList 2 .red := by
  have hfault : compileSource "x\n$" = .error (.scan ⟨['$'], ⟨2, 1, 2⟩⟩) := by
    cbv
  refine ⟨hfault, (pointsAt hfault rfl).marked ⟨?_, ?_, ?_⟩ Report.plain .red, ?_⟩
  · exact ⟨fun h => absurd h (by decide), fun _ => .inl rfl, trivial⟩
  · exact fun c hc => by
      obtain rfl := List.mem_singleton.1 hc
      rfl
  · decide
  · have hstar : ∀ c ∈ ['*'], Text.endsLine c = false := List.forall_mem_singleton.2 rfl
    exact (pointsAt compileSource_separated rfl).astray '\u2028' (by decide) rfl _
      (Report.keepsLineEnds_between (fun _ => hstar) fun _ => hstar) .red

/-- It is not so that the caret is always under the place: a line separator before the character
that cannot be read ends the line that is shown. -/
theorem caret_astray : ¬ ∀ (source : String) (fault : Fault) (place : Location),
    compileSource source = .error fault → fault.location? = some place →
      Report.marked Report.plain source.toList place .red =
        Report.caretUnder Report.plain source.toList place.offset .red := by
  intro h
  have heq := h "x\u2028$" _ _ compileSource_separated rfl
  have hmarked : Report.marked Report.plain "x\u2028$".toList ⟨1, 3, 2⟩ .red =
      "  x\n   ^".toList := by
    cbv
  have hcaret : Report.caretUnder Report.plain "x\u2028$".toList 2 .red =
      "  x\u2028$\n    ^".toList := by
    cbv
  exact absurd (hmarked.symm.trans (heq.trans hcaret)) (by decide)

end Calculator
