import Calculator.Text.Cursor
import Mathlib.Data.Nat.SuccPred
import Mathlib.Data.Prod.Lex
import Mathlib.Order.Interval.Set.Monotone

/-
  Locations step by step.  The location of an offset, which counts line feeds and looks back for the
  last one, is the location of the offset before it moved over one character (`ofOffset_succ`); so a
  place moved forward is the location of the later offset (`forward_ofOffset`), and a cursor stands
  where counting the characters before it from the start leads to.  A step goes to a later column of
  the line or to the next line (`lt_step`), so line and column tell the offset (`location_counted`).
-/

namespace Calculator

namespace Location

variable {text : Array Char} {offset stop : Nat}

theorem lineStart_le (text : Array Char) (offset : Nat) : lineStart text offset ≤ offset := by
  induction offset with
  | zero => exact Nat.le_refl _
  | succ offset ih =>
    unfold lineStart
    split
    · exact Nat.le_refl _
    · exact Nat.le_succ_of_le ih

theorem ofOffset_zero (text : Array Char) : ofOffset text 0 = start := by
  simp [ofOffset, start, lineStart]

theorem ofOffset_succ (h : offset < text.size) :
    ofOffset text (offset + 1) = (ofOffset text offset).step text[offset] := by
  have hline : text.extract 0 (offset + 1) = (text.extract 0 offset).push text[offset] := by
    rw [Array.push_extract_getElem h, Nat.min_eq_left (Nat.zero_le _)]
  have hle := lineStart_le text offset
  unfold ofOffset step
  rw [Nat.min_eq_left h, Nat.min_eq_left (Nat.le_of_lt h), hline, Array.count_push, lineStart,
    Array.getElem?_eq_getElem h]
  by_cases hfeed : text[offset] = '\n'
  · simp [hfeed]
  · have hcolumn : offset + 1 - lineStart text offset = offset - lineStart text offset + 1 :=
      Nat.sub_add_comm hle
    simp [hfeed, hcolumn]

/-- The location of an offset, moved forward to a later one, is the location of that. -/
theorem forward_ofOffset (h : offset ≤ stop) (hstop : stop ≤ text.size) :
    (ofOffset text offset).forward text stop = ofOffset text stop := by
  unfold forward
  change (text.extract offset stop).foldl step _ = _
  induction h with
  | refl => rw [Array.extract_empty_of_stop_le_start (Nat.le_refl _)]; rfl
  | @step stop hle ih =>
    have hlast : text.extract offset (stop + 1) = (text.extract offset stop).push text[stop] := by
      rw [Array.push_extract_getElem hstop, Nat.min_eq_left hle]
    rw [hlast, Array.foldl_push, ih (Nat.le_of_lt hstop), ofOffset_succ hstop]

/-! ## Order of locations -/

/-- Line and column of a place; lines are compared first. -/
def lineColumn (l : Location) : ℕ ×ₗ ℕ := toLex (l.line, l.column)

theorem lt_step (l : Location) (c : Char) : l.lineColumn < (l.step c).lineColumn := by
  rw [lineColumn, lineColumn, Prod.Lex.toLex_lt_toLex, step]
  split
  · exact .inl (Nat.lt_succ_self _)
  · exact .inr ⟨rfl, Nat.lt_succ_self _⟩

/-- Line and column grow with the offset. -/
theorem lineColumn_strictMonoOn (text : Array Char) :
    StrictMonoOn (fun offset => (ofOffset text offset).lineColumn) (Set.Iic text.size) := by
  refine strictMonoOn_Iic_of_lt_succ fun offset hoffset => ?_
  change (ofOffset text offset).lineColumn < (ofOffset text (offset + 1)).lineColumn
  rw [ofOffset_succ hoffset]
  exact lt_step _ _

/-- A cursor stands where the characters before it lead to, counted one by one from the start of the
text; and lines and columns of two offsets are in the order of the offsets, and differ when these
do. -/
theorem location_counted (text : Array Char) {k : Nat} (hk : k ≤ text.size) :
    Cursor.location ⟨text, k⟩ = (text.toList.take k).foldl step start ∧
      ∀ j ≤ text.size,
        ((Cursor.location ⟨text, j⟩).lineColumn < (Cursor.location ⟨text, k⟩).lineColumn ↔ j < k) ∧
        ((Cursor.location ⟨text, j⟩).lineColumn = (Cursor.location ⟨text, k⟩).lineColumn ↔
          j = k) := by
  have hmono := lineColumn_strictMonoOn text
  refine ⟨?_, fun j hj => ⟨hmono.lt_iff_lt hj hk, hmono.injOn.eq_iff hj hk⟩⟩
  have hforward := forward_ofOffset (Nat.zero_le k) hk
  rw [ofOffset_zero, forward, ← Array.foldl_toList, Array.toList_extract] at hforward
  exact hforward.symm

/-- An empty second line has a place of its own, between the line feeds. -/
theorem location_counted_feeds : 2 ≤ #['a', '\n', '\n', 'b'].size ∧
    Cursor.location ⟨#['a', '\n', '\n', 'b'], 2⟩ = ⟨2, 1, 2⟩ ∧
      (Cursor.location ⟨#['a', '\n', '\n', 'b'], 1⟩).lineColumn <
        (Cursor.location ⟨#['a', '\n', '\n', 'b'], 2⟩).lineColumn := by
  obtain ⟨hcounted, horder⟩ := location_counted #['a', '\n', '\n', 'b'] (k := 2) (by decide)
  exact ⟨by decide, hcounted, (horder 1 (by decide)).1.2 (by decide)⟩

end Location

end Calculator
