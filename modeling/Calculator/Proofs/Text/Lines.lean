import Calculator.Proofs.Text.Location
import Calculator.Text.Lines

/-
  Lines of a text and their numbers.  A location counts line feeds only, a text that is shown has
  more that ends a line.  Where nothing but a line feed, or a carriage return right before one, ends
  the lines before a place, and nothing at all ends the line of the place before its line feed, the
  lines that are shown are those that the location counts (`lines_eq`).
-/

namespace Calculator

namespace Text

/-- Nothing but a line feed ends a line of a text, or a carriage return right before one. -/
def FeedsOnly : List Char → Prop
  | [] => True
  | c :: rest =>
    (endsLine c = true → c = '\n' ∨ c = '\r' ∧ rest.head? = some '\n') ∧ FeedsOnly rest

/-! ## One character -/

theorem linesFrom_feed (rest line : List Char) :
    linesFrom ('\n' :: rest) line = line.reverse :: linesFrom rest [] := rfl

theorem linesFrom_return_feed (rest line : List Char) :
    linesFrom ('\r' :: '\n' :: rest) line = linesFrom ('\n' :: rest) line := rfl

theorem linesFrom_inside {c : Char} (h : endsLine c = false) (rest line : List Char) :
    linesFrom (c :: rest) line = linesFrom rest (c :: line) := by
  have hreturn : c ≠ '\r' := by
    rintro rfl
    cases h
  rw [linesFrom]
  · rw [h]
    rfl
  · rintro rest' rfl
    exact absurd rfl hreturn

/-! ## Lines -/

theorem linesFrom_line {cs : List Char} (h : ∀ c ∈ cs, endsLine c = false)
    (rest line : List Char) :
    linesFrom (cs ++ rest) line = linesFrom rest (cs.reverse ++ line) := by
  induction cs generalizing line with
  | nil => rfl
  | cons c cs ih =>
    obtain ⟨hc, hcs⟩ := List.forall_mem_cons.1 h
    rw [List.cons_append, linesFrom_inside hc, ih hcs, List.reverse_cons, List.append_assoc]
    rfl

/-- A text that ends with a line feed has as many lines as line feeds. -/
theorem linesFrom_append {before : List Char} (hfeeds : FeedsOnly before)
    (hlast : before.getLast? = some '\n') (after line : List Char) :
    ∃ ls, linesFrom (before ++ after) line = ls ++ lines after ∧ ls.length = before.count '\n' := by
  induction before generalizing line with
  | nil => cases hlast
  | cons c before ih =>
    obtain ⟨hc, hfeeds⟩ := hfeeds
    have hmore (hne : c ≠ '\n') (line : List Char) : ∃ ls,
        linesFrom (before ++ after) line = ls ++ lines after ∧
          ls.length = (c :: before).count '\n' := by
      rw [List.count_cons_of_ne hne]
      cases before with
      | nil => exact absurd (Option.some.inj hlast) hne
      | cons d before => exact ih hfeeds (by rwa [List.getLast?_cons_cons] at hlast) line
    by_cases hends : endsLine c = true
    · rcases hc hends with rfl | ⟨rfl, hnext⟩
      · rw [List.cons_append, linesFrom_feed, List.count_cons_self]
        cases before with
        | nil => exact ⟨[line.reverse], rfl, rfl⟩
        | cons d before =>
          obtain ⟨ls, hls, hlength⟩ := ih hfeeds (by rwa [List.getLast?_cons_cons] at hlast) []
          exact ⟨line.reverse :: ls, congrArg _ hls, congrArg (· + 1) hlength⟩
      · obtain ⟨rest, rfl⟩ := List.head?_eq_some_iff.1 hnext
        rw [List.cons_append, List.cons_append, linesFrom_return_feed]
        exact hmore (by decide) line
    · have hinside := Bool.of_not_eq_true hends
      have hne : c ≠ '\n' := by
        rintro rfl
        cases hinside
      rw [List.cons_append, linesFrom_inside hinside]
      exact hmore hne (c :: line)

theorem linesFrom_mem {cs line : List Char} (h : ∀ c ∈ line, endsLine c = false) :
    ∀ l ∈ linesFrom cs line, ∀ c ∈ l, endsLine c = false := by
  fun_induction linesFrom cs line with
  | case1 => exact List.forall_mem_nil _
  | case2 line hline =>
    simpa using h
  | case3 rest line ih =>
    refine List.forall_mem_cons.2 ⟨fun c hc => h c (List.mem_reverse.1 hc), ?_⟩
    exact ih (List.forall_mem_nil _)
  | case4 line c rest hc hends ih =>
    refine List.forall_mem_cons.2 ⟨fun c hc => h c (List.mem_reverse.1 hc), ?_⟩
    exact ih (List.forall_mem_nil _)
  | case5 line c rest hc hends ih =>
    exact ih (List.forall_mem_cons.2 ⟨Bool.of_not_eq_true hends, h⟩)

/-- Nothing in a line ends it. -/
theorem endsLine_of_mem_lines {cs l : List Char} (h : l ∈ lines cs) :
    ∀ c ∈ l, endsLine c = false :=
  linesFrom_mem (List.forall_mem_nil _) l h

/-- A line that is not empty, or that something follows, is the first one of the text from there. -/
theorem lines_line {line after : List Char} (hline : ∀ c ∈ line, endsLine c = false)
    (hafter : after = [] ∧ line ≠ [] ∨ after.head? = some '\n') :
    ∃ ls, lines (line ++ after) = line :: ls := by
  rw [lines, linesFrom_line hline, List.append_nil]
  rcases hafter with ⟨rfl, hne⟩ | hfeed
  · refine ⟨[], ?_⟩
    rw [linesFrom]
    · rw [List.reverse_reverse]
    · exact fun hnil => hne (List.reverse_eq_nil_iff.1 hnil)
  · obtain ⟨rest, rfl⟩ := List.head?_eq_some_iff.1 hfeed
    refine ⟨linesFrom rest [], ?_⟩
    rw [linesFrom_feed, List.reverse_reverse]

/-- The line after some line feeds is the line of that number. -/
theorem lines_eq {before line after : List Char} (hfeeds : FeedsOnly before)
    (hlast : before = [] ∨ before.getLast? = some '\n') (hline : ∀ c ∈ line, endsLine c = false)
    (hafter : after = [] ∧ line ≠ [] ∨ after.head? = some '\n') :
    ∃ ls ls', lines (before ++ (line ++ after)) = ls ++ line :: ls' ∧
      ls.length = before.count '\n' := by
  obtain ⟨ls', hls'⟩ := lines_line hline hafter
  rcases hlast with rfl | hlast
  · exact ⟨[], ls', hls', rfl⟩
  · obtain ⟨ls, hls, hlength⟩ := linesFrom_append hfeeds hlast (line ++ after) []
    exact ⟨ls, ls', by rw [lines, hls, hls'], hlength⟩

end Text

namespace Location

/-- The text up to an offset is what comes before the line of the offset, and the start of that
line. -/
theorem lineStart_split {cs : List Char} {offset : Nat} (h : offset ≤ cs.length) :
    ∃ before first, cs.take offset = before ++ first ∧
      before.length = lineStart cs.toArray offset ∧ '\n' ∉ first ∧
      (before = [] ∨ before.getLast? = some '\n') := by
  induction offset with
  | zero => exact ⟨[], [], rfl, rfl, List.not_mem_nil, .inl rfl⟩
  | succ offset ih =>
    have htake : cs.take (offset + 1) = cs.take offset ++ [cs[offset]] :=
      List.take_succ_eq_append_getElem h
    unfold lineStart
    rw [List.getElem?_toArray, List.getElem?_eq_getElem h, htake]
    by_cases hfeed : cs[offset] = '\n'
    · refine ⟨cs.take offset ++ [cs[offset]], [], (List.append_nil _).symm, ?_,
        List.not_mem_nil, .inr ?_⟩
      · rw [if_pos (congrArg some hfeed), ← htake, List.length_take_of_le h]
      · rw [List.getLast?_concat, hfeed]
    · obtain ⟨before, first, hsplit, hlength, hfirst, hlast⟩ := ih (Nat.le_of_succ_le h)
      refine ⟨before, first ++ [cs[offset]], ?_, ?_, ?_, hlast⟩
      · rw [hsplit, List.append_assoc]
      · rw [if_neg fun heq => hfeed (Option.some.inj heq), hlength]
      · rw [List.mem_append, List.mem_singleton]
        rintro (hmem | heq)
        · exact hfirst hmem
        · exact hfeed heq.symm

end Location

end Calculator
