import Mathlib.Data.List.Induction
import Calculator.Token.Scan

/-
  Brackets and their partners.  A word of brackets is balanced when each bracket has its partner
  (`Balanced`), and its closing brackets are matched when each one closes the innermost bracket that
  is open before it (`Matched`).  Reading such a word keeps a stack of the closers that are due, and
  fails at the first closer that is not the one due; so it succeeds just where the closers are
  matched (`Matched.leavesOpen`, `LeavesOpen.matched`), and what is due then is the only word of
  closers that balances the word (`balanced_append_iff`).  The scanner keeps the same stack but goes
  on after a closer that is not due (`closers_of_matched`).
-/

namespace Calculator

namespace Symbol

/-- A closing bracket. -/
def IsCloser (sign : Symbol) : Prop := sign = .closeParen ∨ sign = .closeBrace

theorem isCloser_of_closer? {opener sign : Symbol} (h : opener.closer? = some sign) :
    sign.IsCloser := by
  cases opener <;> cases h
  · exact .inl rfl
  · exact .inr rfl

/-- A closing bracket opens nothing. -/
theorem IsCloser.closer? {sign : Symbol} (h : sign.IsCloser) : sign.closer? = none := by
  rcases h with rfl | rfl <;> rfl

/-- A bracket of either kind, opening or closing. -/
def IsBracket (sign : Symbol) : Prop := sign.IsCloser ∨ sign.closer?.isSome

end Symbol

/-- The bracket that a lexeme is. -/
def Lexeme.bracket? : Lexeme → Option Symbol
  | symbol .openParen => some .openParen
  | symbol .closeParen => some .closeParen
  | symbol .openBrace => some .openBrace
  | symbol .closeBrace => some .closeBrace
  | _ => none

theorem Lexeme.bracket?_eq_some {l : Lexeme} {b : Symbol} (h : l.bracket? = some b) :
    l = .symbol b ∧ b.IsBracket := by
  cases l with
  | symbol sign =>
    cases sign <;> cases h
    · exact ⟨rfl, .inr rfl⟩
    · exact ⟨rfl, .inl (.inl rfl)⟩
    · exact ⟨rfl, .inr rfl⟩
    · exact ⟨rfl, .inl (.inr rfl)⟩
  | _ => cases h

theorem Lexeme.bracket?_closer {sign : Symbol} (h : sign.IsCloser) :
    (Lexeme.symbol sign).bracket? = some sign := by
  rcases h with rfl | rfl <;> rfl

/-- The brackets among some lexemes. -/
def brackets (ls : List Lexeme) : List Symbol := ls.filterMap Lexeme.bracket?

@[simp] theorem brackets_nil : brackets [] = [] := rfl

@[simp] theorem brackets_cons (l : Lexeme) (ls : List Lexeme) :
    brackets (l :: ls) = l.bracket?.toList ++ brackets ls := by
  unfold brackets
  cases h : l.bracket? with
  | none => exact List.filterMap_cons_none h
  | some b => exact List.filterMap_cons_some h

@[simp] theorem brackets_append (ls rs : List Lexeme) :
    brackets (ls ++ rs) = brackets ls ++ brackets rs := List.filterMap_append

theorem brackets_closers {dues : List Symbol} (h : ∀ s ∈ dues, s.IsCloser) :
    brackets (dues.map Lexeme.symbol) = dues := by
  induction dues with
  | nil => rfl
  | cons due dues ih =>
    obtain ⟨hdue, hdues⟩ := List.forall_mem_cons.1 h
    rw [List.map_cons, brackets_cons, Lexeme.bracket?_closer hdue, ih hdues]
    rfl

theorem isBracket_of_mem {ls : List Lexeme} {b : Symbol} (h : b ∈ brackets ls) : b.IsBracket := by
  obtain ⟨l, -, hl⟩ := List.mem_filterMap.1 h
  exact (Lexeme.bracket?_eq_some hl).2

/-! ## Balanced words -/

/-- Words in which every bracket has its partner. -/
inductive Balanced : List Symbol → Prop where
  | nil : Balanced []
  | wrap {opener closer : Symbol} {w : List Symbol} (h : opener.closer? = some closer)
      (hw : Balanced w) : Balanced (opener :: (w ++ [closer]))
  | append {v w : List Symbol} (hv : Balanced v) (hw : Balanced w) : Balanced (v ++ w)

/-- Each closing bracket of a word closes the innermost bracket that is open before it: from that
one up to the closing bracket all brackets have their partners. -/
def Matched (w : List Symbol) : Prop :=
  ∀ before closer after, w = before ++ closer :: after → closer.IsCloser →
    ∃ outer opener inner, before = outer ++ opener :: inner ∧ opener.closer? = some closer ∧
      Balanced inner

/-- A word that leaves brackets open, with their closers, the innermost first. -/
inductive LeavesOpen : List Symbol → List Symbol → Prop where
  | none {w : List Symbol} (h : Balanced w) : LeavesOpen w []
  | bracket {v w dues : List Symbol} {opener closer : Symbol} (h : LeavesOpen v dues)
      (hopener : opener.closer? = some closer) (hw : Balanced w) :
      LeavesOpen (v ++ opener :: w) (closer :: dues)

theorem LeavesOpen.balanced {v w dues : List Symbol} (h : LeavesOpen v dues) (hw : Balanced w) :
    LeavesOpen (v ++ w) dues := by
  cases h with
  | none h => exact .none (h.append hw)
  | bracket h hopener hw' =>
    rw [List.append_assoc, List.cons_append]
    exact .bracket h hopener (hw'.append hw)

/-- The closer that is due closes the innermost open bracket. -/
theorem LeavesOpen.closed {w dues : List Symbol} {closer : Symbol}
    (h : LeavesOpen w (closer :: dues)) : LeavesOpen (w ++ [closer]) dues := by
  cases h with
  | bracket h hopener hw =>
    rw [List.append_assoc, List.cons_append]
    exact h.balanced (.wrap hopener hw)

/-- Closing all that is open makes a word balanced. -/
theorem LeavesOpen.append_dues {w dues : List Symbol} (h : LeavesOpen w dues) :
    Balanced (w ++ dues) := by
  induction dues generalizing w with
  | nil =>
    cases h with
    | none h => rwa [List.append_nil]
  | cons closer dues ih =>
    rw [List.append_cons]
    exact ih h.closed

/-! ## Reading with a stack -/

/-- The closers that are due after one more bracket, unless it closes what is not open. -/
def due? (dues : List Symbol) (b : Symbol) : Option (List Symbol) :=
  match b.closer? with
  | some closer => some (closer :: dues)
  | none => if dues.head? = some b then some dues.tail else none

theorem due?_opener {opener closer : Symbol} (h : opener.closer? = some closer)
    (dues : List Symbol) : due? dues opener = some (closer :: dues) := by
  rw [due?, h]

theorem due?_closer {closer : Symbol} (h : closer.IsCloser) (dues : List Symbol) :
    due? dues closer = if dues.head? = some closer then some dues.tail else none := by
  rw [due?, h.closer?]

/-- The closers that are due after a word of brackets, unless one of it closes what is not open. -/
def dueAfter? : List Symbol → List Symbol → Option (List Symbol)
  | dues, [] => some dues
  | dues, b :: w => (due? dues b).bind (dueAfter? · w)

theorem dueAfter?_append (dues v w : List Symbol) :
    dueAfter? dues (v ++ w) = (dueAfter? dues v).bind (dueAfter? · w) := by
  induction v generalizing dues with
  | nil => rfl
  | cons b v ih =>
    rw [List.cons_append, dueAfter?, dueAfter?, Option.bind_assoc]
    exact congrArg _ (funext fun dues => ih dues)

theorem dueAfter?_concat {dues dues' w : List Symbol} {b : Symbol} :
    dueAfter? dues (w ++ [b]) = some dues' ↔
      ∃ dues₁, dueAfter? dues w = some dues₁ ∧ due? dues₁ b = some dues' := by
  simp [dueAfter?_append, dueAfter?, Option.bind_eq_some_iff]

/-- What is due before a closer that is read is that closer, and then the closers due after it. -/
theorem dueAfter?_closer {dues dues' w : List Symbol} {closer : Symbol} (hcloser : closer.IsCloser)
    (h : dueAfter? dues (closer :: w) = some dues') :
    ∃ others, dues = closer :: others ∧ dueAfter? others w = some dues' := by
  rw [dueAfter?, due?_closer hcloser] at h
  split at h
  · next hhead =>
    obtain ⟨others, rfl⟩ := List.head?_eq_some_iff.1 hhead
    exact ⟨others, rfl, h⟩
  · cases h

theorem dueAfter?_of_balanced {w : List Symbol} (h : Balanced w) (dues : List Symbol) :
    dueAfter? dues w = some dues := by
  induction h generalizing dues with
  | nil => rfl
  | @wrap opener closer w h hw ih =>
    rw [dueAfter?, due?_opener h]
    refine dueAfter?_concat.2 ⟨_, ih _, ?_⟩
    rw [due?_closer (Symbol.isCloser_of_closer? h), if_pos List.head?_cons]
    rfl
  | append hv hw ihv ihw =>
    rw [dueAfter?_append, ihv]
    exact ihw dues

/-- What is due after a word closes the brackets that it leaves open. -/
theorem LeavesOpen.dueAfter? {w dues : List Symbol} (h : LeavesOpen w dues) :
    dueAfter? [] w = some dues := by
  induction h with
  | none h => exact dueAfter?_of_balanced h []
  | @bracket v w dues opener closer h hopener hw ih =>
    rw [dueAfter?_append, ih, Option.bind_some, Calculator.dueAfter?, due?_opener hopener]
    exact dueAfter?_of_balanced hw _

theorem leavesOpen_of_dueAfter? {w dues : List Symbol} (hw : ∀ b ∈ w, b.IsBracket)
    (h : dueAfter? [] w = some dues) : LeavesOpen w dues := by
  induction w using List.reverseRecOn generalizing dues with
  | nil =>
    cases h
    exact .none .nil
  | append_singleton w b ih =>
    obtain ⟨hw, hb⟩ := List.forall_mem_append.1 hw
    obtain ⟨dues₁, hdues, h⟩ := dueAfter?_concat.1 h
    have hopen := ih hw hdues
    rcases List.forall_mem_singleton.1 hb with hcloser | hopener
    · rw [due?_closer hcloser] at h
      split at h
      · next hhead =>
        cases h
        obtain ⟨others, rfl⟩ := List.head?_eq_some_iff.1 hhead
        exact hopen.closed
      · cases h
    · obtain ⟨closer, hcloser⟩ := Option.isSome_iff_exists.1 hopener
      rw [due?_opener hcloser] at h
      cases h
      exact .bracket hopen hcloser .nil

/-- Where closing brackets are matched, some brackets are left open, or none. -/
theorem Matched.leavesOpen {w : List Symbol} (h : Matched w) (hw : ∀ b ∈ w, b.IsBracket) :
    ∃ dues, LeavesOpen w dues := by
  induction w using List.reverseRecOn with
  | nil => exact ⟨[], .none .nil⟩
  | append_singleton w b ih =>
    obtain ⟨hw, hb⟩ := List.forall_mem_append.1 hw
    obtain ⟨dues, hopen⟩ := ih
      (fun before closer after heq => h before closer (after ++ [b])
        (by rw [heq, List.append_assoc, List.cons_append])) hw
    rcases List.forall_mem_singleton.1 hb with hcloser | hopener
    · obtain ⟨outer, opener, inner, rfl, hopener, hinner⟩ := h w b [] rfl hcloser
      have hstack := hopen.dueAfter?
      rw [dueAfter?_append, Option.bind_eq_some_iff] at hstack
      obtain ⟨dues₁, -, hstack⟩ := hstack
      rw [dueAfter?, due?_opener hopener, Option.bind_some, dueAfter?_of_balanced hinner] at hstack
      cases hstack
      exact ⟨dues₁, hopen.closed⟩
    · obtain ⟨closer, hcloser⟩ := Option.isSome_iff_exists.1 hopener
      exact ⟨closer :: dues, .bracket hopen hcloser .nil⟩

theorem LeavesOpen.matched {w dues : List Symbol} (h : LeavesOpen w dues)
    (hw : ∀ b ∈ w, b.IsBracket) : Matched w := by
  rintro before closer after rfl hcloser
  obtain ⟨hbefore, -⟩ := List.forall_mem_append.1 hw
  have hstack := h.dueAfter?
  rw [dueAfter?_append, Option.bind_eq_some_iff] at hstack
  obtain ⟨dues₁, hdues, hstack⟩ := hstack
  obtain ⟨others, rfl, -⟩ := dueAfter?_closer hcloser hstack
  cases leavesOpen_of_dueAfter? hbefore hdues with
  | bracket h hopener hinner => exact ⟨_, _, _, rfl, hopener, hinner⟩

/-- In a balanced word the closing brackets are matched, and so they are in its beginnings. -/
theorem Balanced.matched {v w : List Symbol} (h : Balanced (v ++ w))
    (hvw : ∀ b ∈ v ++ w, b.IsBracket) : Matched v := by
  have hmatched := (LeavesOpen.none h).matched hvw
  intro before closer after heq
  exact hmatched before closer (after ++ w) (by rw [heq, List.append_assoc, List.cons_append])

/-- Closers that empty the stack are those that are due. -/
theorem eq_of_dueAfter? {dues d : List Symbol} (hd : ∀ s ∈ d, s.IsCloser)
    (h : dueAfter? dues d = some []) : d = dues := by
  induction d generalizing dues with
  | nil => exact (Option.some.inj h).symm
  | cons closer d ih =>
    obtain ⟨hcloser, hd⟩ := List.forall_mem_cons.1 hd
    obtain ⟨others, rfl, hothers⟩ := dueAfter?_closer hcloser h
    rw [ih hd hothers]

/-- The closers that balance a word are those of the brackets that it leaves open, and no others. -/
theorem balanced_append_iff {w dues d : List Symbol} (h : LeavesOpen w dues)
    (hd : ∀ s ∈ d, s.IsCloser) : Balanced (w ++ d) ↔ d = dues := by
  constructor
  · intro hbalanced
    have hstack := dueAfter?_of_balanced hbalanced []
    rw [dueAfter?_append, h.dueAfter?] at hstack
    exact eq_of_dueAfter? hd hstack
  · rintro rfl
    exact h.append_dues

namespace Scan

/-! ## The brackets that the scanner closes -/

theorem due_mem {dues : List Symbol} (h : ∀ s ∈ dues, s.IsCloser) (l : Lexeme) :
    ∀ s ∈ due dues l, s.IsCloser := by
  unfold due
  split
  · next sign =>
    split
    · next closer hcloser =>
      exact List.forall_mem_cons.2 ⟨Symbol.isCloser_of_closer? hcloser, h⟩
    · split
      · exact fun s hs => h s (List.mem_of_mem_tail hs)
      · exact h
  · exact h

theorem closers_concat (ls : List Lexeme) (l : Lexeme) :
    closers (ls ++ [l]) = due (closers ls) l := by
  rw [closers, List.foldl_append]
  rfl

/-- Whatever is due closes a bracket. -/
theorem closers_mem (ls : List Lexeme) : ∀ s ∈ closers ls, s.IsCloser := by
  induction ls using List.reverseRecOn with
  | nil => exact List.forall_mem_nil _
  | append_singleton ls l ih =>
    rw [closers_concat]
    exact due_mem ih l

/-- Where the closers that are due follow, none is due any more. -/
theorem closers_append_closers {ls : List Lexeme} {dues : List Symbol} (h : closers ls = dues) :
    closers (ls ++ dues.map Lexeme.symbol) = [] := by
  induction dues generalizing ls with
  | nil => simpa using h
  | cons closer dues ih =>
    have hcloser : closer.IsCloser := closers_mem ls closer (by rw [h]; exact List.mem_cons_self)
    rw [List.map_cons, List.append_cons]
    refine ih ?_
    rw [closers_concat, h, due, hcloser.closer?]
    exact if_pos List.head?_cons

/-- A lexeme that is no bracket leaves the same closers due. -/
theorem due_of_no_bracket {dues : List Symbol} (h : ∀ s ∈ dues, s.IsCloser) {l : Lexeme}
    (hl : l.bracket? = none) : due dues l = dues := by
  cases l with
  | symbol sign =>
    have hne : ¬ dues.head? = some sign := by
      intro hhead
      rw [Lexeme.bracket?_closer (h sign (List.mem_of_head? hhead))] at hl
      cases hl
    cases sign <;> first | exact if_neg hne | cases hl
  | _ => rfl

theorem due_of_due? {dues dues' : List Symbol} {b : Symbol} (h : due? dues b = some dues') :
    due dues (.symbol b) = dues' := by
  cases hcloser : b.closer? with
  | some closer =>
    rw [due?, hcloser] at h
    rw [due, hcloser]
    exact Option.some.inj h
  | none =>
    rw [due?, hcloser] at h
    rw [due, hcloser]
    by_cases hhead : dues.head? = some b
    · rw [if_pos hhead] at h
      exact (if_pos hhead).trans (Option.some.inj h)
    · rw [if_neg hhead] at h
      cases h

/-- The scanner keeps the stack of the brackets that are open, where reading with one succeeds. -/
theorem closers_eq {ls : List Lexeme} {dues : List Symbol}
    (h : dueAfter? [] (brackets ls) = some dues) : closers ls = dues := by
  induction ls using List.reverseRecOn generalizing dues with
  | nil => exact Option.some.inj h
  | append_singleton ls l ih =>
    rw [closers_concat]
    cases hl : l.bracket? with
    | none =>
      have hsame : brackets (ls ++ [l]) = brackets ls := by simp [hl]
      rw [hsame] at h
      rw [due_of_no_bracket (closers_mem ls) hl, ih h]
    | some b =>
      have hmore : brackets (ls ++ [l]) = brackets ls ++ [b] := by simp [hl]
      rw [hmore] at h
      obtain ⟨dues₁, hdues, h⟩ := dueAfter?_concat.1 h
      rw [ih hdues]
      obtain ⟨rfl, -⟩ := Lexeme.bracket?_eq_some hl
      exact due_of_due? h

/-- Lexemes with matched closers leave open what the scanner closes. -/
theorem closers_of_matched {ls : List Lexeme} (h : Matched (brackets ls)) :
    LeavesOpen (brackets ls) (closers ls) := by
  have hw : ∀ b ∈ brackets ls, b.IsBracket := fun b => isBracket_of_mem
  obtain ⟨dues, hopen⟩ := h.leavesOpen hw
  rwa [closers_eq hopen.dueAfter?]

end Scan

end Calculator
