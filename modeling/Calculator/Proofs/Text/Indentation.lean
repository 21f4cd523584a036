import Calculator.Proofs.Text.Lines
import Calculator.Text.Blank

/-
  Texts indented by their braces.  A line is indented by four blanks for each brace that is open where
  it starts, a closing brace at its start not counted as open (`LineBreak`), and lines end after
  semicolons and at the braces of blocks that are not empty, and nowhere else (`Parted`).  Texts that
  stand inside some open braces and are laid out so (`LaidOut`) are put together with blanks between
  them, with line breaks after semicolons, and in braces on lines of their own, and are laid out so
  again.
-/

namespace Calculator.Text

variable {depth depth' : Nat} {before behind cs cs' : List Char}

/-! ## Places in a text -/

/-- Wherever a character stands in a text, what comes before it and what comes behind it are good. -/
def AtEach (c : Char) (good : List Char → List Char → Prop) (cs : List Char) : Prop :=
  ∀ before behind, cs = before ++ c :: behind → good before behind

namespace AtEach

variable {c d : Char} {good good' good'' : List Char → List Char → Prop}

theorem of_notMem (h : c ∉ cs) : AtEach c good cs := by
  rintro before behind rfl
  exact absurd (by simp) h

theorem cons (hhere : d = c → good [] cs)
    (h : AtEach c (fun before behind => good (d :: before) behind) cs) :
    AtEach c good (d :: cs) := by
  intro before behind heq
  cases before with
  | nil =>
    obtain ⟨hc, rfl⟩ := List.cons.inj heq
    exact hhere hc
  | cons e before =>
    obtain ⟨rfl, htail⟩ := List.cons.inj heq
    exact h before behind htail

/-- A place in a text put together from two is a place in one of them. -/
theorem append (h : AtEach c good cs) (h' : AtEach c good' cs')
    (hleft : ∀ before behind, good before behind → good'' before (behind ++ cs'))
    (hright : ∀ before behind, good' before behind → good'' (cs ++ before) behind) :
    AtEach c good'' (cs ++ cs') := by
  intro before behind heq
  rcases List.append_eq_append_iff.1 heq with ⟨rest, rfl, hcs'⟩ | ⟨rest, hcs, hbehind⟩
  · exact hright rest behind (h' rest behind hcs')
  · cases rest with
    | nil =>
      rw [List.append_nil] at hcs
      subst hcs
      rw [← List.append_nil cs]
      exact hright [] behind (h' [] behind hbehind.symm)
    | cons e rest =>
      obtain ⟨rfl, rfl⟩ := List.cons.inj hbehind
      exact hleft before rest (h before rest hcs)

end AtEach

/-! ## Line breaks -/

/-- How one line of a text inside some open braces ends and the next one starts, given the text before
the line feed and the text behind it. -/
structure LineBreak (depth : Nat) (before behind : List Char) (last first : Char) (indent : Nat) :
    Prop where
  ends : before.getLast? = some last
  starts : ∃ rest, behind = List.replicate (4 * indent) ' ' ++ first :: rest
  solid : isBlank first = false
  /-- The braces that are open, without the one that is closed at the start of the line, tell how far
  the line is indented. -/
  depth_eq : (if first = '}' then indent + 1 else indent) + before.count '}' =
    depth + before.count '{'
  /-- A line ends after a semicolon, after the opening brace of a block that is not empty, or before
  the closing one. -/
  place : last = ';' ∧ first ≠ '}' ∨ last = '{' ∧ first ≠ '}' ∨
    last ≠ '{' ∧ isBlank last = false ∧ first = '}'

/-- Every line break of a text inside some open braces is as it should be. -/
def BrokenWell (depth : Nat) : List Char → Prop :=
  AtEach '\n' fun before behind =>
    ∃ last first indent, LineBreak depth before behind last first indent

section LineBreak

variable {last first : Char} {indent : Nat}

theorem LineBreak.append (h : LineBreak depth before behind last first indent) (more : List Char) :
    LineBreak depth before (behind ++ more) last first indent := by
  obtain ⟨rest, hrest⟩ := h.starts
  exact { h with starts := ⟨rest ++ more, by rw [hrest, List.append_assoc, List.cons_append]⟩ }

/-- What comes before a line break changes how many braces are open there. -/
theorem LineBreak.prepend (h : LineBreak depth' before behind last first indent)
    (hdepth : depth' + cs.count '}' = depth + cs.count '{') :
    LineBreak depth (cs ++ before) behind last first indent := by
  have hindent := h.depth_eq
  refine { h with ends := ?_, depth_eq := ?_ }
  · rw [List.getLast?_append, h.ends, Option.some_or]
  · rw [List.count_append, List.count_append]
    omega

namespace BrokenWell

theorem append (h : BrokenWell depth cs) (hdepth : depth' + cs.count '}' = depth + cs.count '{')
    (h' : BrokenWell depth' cs') : BrokenWell depth (cs ++ cs') := by
  refine AtEach.append h h' ?_ ?_
  · rintro before behind ⟨last, first, indent, hbreak⟩
    exact ⟨last, first, indent, hbreak.append cs'⟩
  · rintro before behind ⟨last, first, indent, hbreak⟩
    exact ⟨last, first, indent, hbreak.prepend hdepth⟩

/-- A line break between two texts. -/
theorem feed (h : BrokenWell depth cs) (hdepth : depth' + cs.count '}' = depth + cs.count '{')
    (h' : BrokenWell depth' cs')
    (hbreak : LineBreak depth cs (List.replicate (4 * indent) ' ' ++ cs') last first indent) :
    BrokenWell depth (cs ++ '\n' :: (List.replicate (4 * indent) ' ' ++ cs')) := by
  have hmargin : '\n' ∉ List.replicate (4 * indent) ' ' := by simp
  have hlead : depth' + (cs ++ '\n' :: List.replicate (4 * indent) ' ').count '}' =
      depth + (cs ++ '\n' :: List.replicate (4 * indent) ' ').count '{' := by
    simpa [List.count_append, List.count_replicate] using hdepth
  have hbehind : AtEach '\n' (fun before behind =>
      ∃ last first indent, LineBreak depth (cs ++ before) behind last first indent)
      ('\n' :: (List.replicate (4 * indent) ' ' ++ cs')) := by
    refine .cons (fun _ => ⟨last, first, indent, by rwa [List.append_nil]⟩) ?_
    refine AtEach.append (.of_notMem hmargin) h' (fun _ _ hfalse => hfalse) ?_
    rintro before behind ⟨last, first, indent', hbreak⟩
    have hbreak' := hbreak.prepend hlead
    rw [List.append_assoc, List.cons_append] at hbreak'
    exact ⟨last, first, indent', hbreak'⟩
  refine AtEach.append h hbehind ?_ fun _ _ hbreak => hbreak
  rintro before behind ⟨last, first, indent', hbreak⟩
  exact ⟨last, first, indent', hbreak.append _⟩

end BrokenWell

end LineBreak

/-- A line ends after each semicolon, after the opening brace of each block that is not empty, and
before its closing one. -/
structure Parted (cs : List Char) : Prop where
  semicolon : AtEach ';' (fun _ behind => behind.head? = some '\n') cs
  opening : AtEach '{' (fun _ behind => behind.head? = some '\n' ∨ behind.head? = some '}') cs
  closing : AtEach '}' (fun before _ => before.getLast? = some '{' ∨
    ∃ line indent, before = line ++ '\n' :: List.replicate indent ' ') cs

namespace Parted

theorem of_notMem (hsemicolon : ';' ∉ cs) (hopen : '{' ∉ cs) (hclose : '}' ∉ cs) : Parted cs :=
  ⟨.of_notMem hsemicolon, .of_notMem hopen, .of_notMem hclose⟩

theorem append (h : Parted cs) (h' : Parted cs') : Parted (cs ++ cs') where
  semicolon := by
    refine h.semicolon.append h'.semicolon (fun before behind hnext => ?_) fun _ _ hnext => hnext
    rw [List.head?_append, hnext, Option.some_or]
  opening := by
    refine h.opening.append h'.opening (fun before behind hnext => ?_) fun _ _ hnext => hnext
    rcases hnext with hnext | hnext
    · exact .inl (by rw [List.head?_append, hnext, Option.some_or])
    · exact .inr (by rw [List.head?_append, hnext, Option.some_or])
  closing := by
    refine h.closing.append h'.closing (fun _ _ hlast => hlast) fun before behind hlast => ?_
    rcases hlast with hlast | ⟨line, indent, rfl⟩
    · exact .inl (by rw [List.getLast?_append, hlast, Option.some_or])
    · exact .inr ⟨cs ++ line, indent, (List.append_assoc ..).symm⟩

/-- A semicolon or an opening brace at the end of a line. -/
theorem ending {c : Char} (hc : c ≠ '}') (indent : Nat) :
    Parted (c :: '\n' :: List.replicate indent ' ') where
  semicolon := .cons (fun _ => rfl) (.of_notMem (by simp))
  opening := .cons (fun _ => .inl rfl) (.of_notMem (by simp))
  closing := .of_notMem (by simp [hc.symm])

/-- A closing brace at the start of a line. -/
theorem starting (indent : Nat) : Parted ('\n' :: List.replicate indent ' ' ++ ['}']) where
  semicolon := .of_notMem (by simp)
  opening := .of_notMem (by simp)
  closing := by
    have hmargin : AtEach '}' (fun _ _ => False) ('\n' :: List.replicate indent ' ') :=
      .of_notMem (by simp)
    have hbrace : AtEach '}' (fun before _ => before = []) ['}'] :=
      .cons (fun _ => rfl) (.of_notMem List.not_mem_nil)
    refine hmargin.append hbrace (fun _ _ hfalse => hfalse.elim) ?_
    rintro before behind rfl
    exact .inr ⟨[], indent, List.append_nil _⟩

end Parted

/-! ## Texts inside braces -/

/-- Whether a character is neither blank nor a brace nor a semicolon. -/
def isPlain (c : Char) : Bool := !isBlank c && c != '{' && c != '}' && c != ';'

theorem isPlain_iff {c : Char} :
    isPlain c = true ↔ isBlank c = false ∧ c ≠ '{' ∧ c ≠ '}' ∧ c ≠ ';' := by
  simp [isPlain, and_assoc]

theorem isPlain_of_mem (h : cs.all isPlain = true) {c : Char} (hc : c ∈ cs) :
    isBlank c = false ∧ c ≠ '{' ∧ c ≠ '}' ∧ c ≠ ';' := isPlain_iff.1 (List.all_eq_true.1 h c hc)

/-- A text that stands inside some open braces: its own braces match, its line breaks are where and as
they should be, and neither of its ends is blank or lies inside its braces. -/
structure LaidOut (depth : Nat) (cs : List Char) : Prop where
  even : cs.count '}' = cs.count '{'
  breaks : BrokenWell depth cs
  parted : Parted cs
  blanks : ∀ c ∈ cs, isBlank c = true → c = ' ' ∨ c = '\n'
  head : ∃ c rest, cs = c :: rest ∧ isBlank c = false ∧ c ≠ '}'
  last : ∃ c, cs.getLast? = some c ∧ isBlank c = false ∧ c ≠ '{'

namespace LaidOut

/-- A word. -/
theorem word (hne : cs ≠ []) (h : cs.all isPlain = true) : LaidOut depth cs where
  even := by
    rw [List.count_eq_zero.2 fun hc => (isPlain_of_mem h hc).2.2.1 rfl,
      List.count_eq_zero.2 fun hc => (isPlain_of_mem h hc).2.1 rfl]
  breaks := .of_notMem fun hc => absurd (isPlain_of_mem h hc).1 (by decide)
  parted := .of_notMem (fun hc => (isPlain_of_mem h hc).2.2.2 rfl)
    (fun hc => (isPlain_of_mem h hc).2.1 rfl) fun hc => (isPlain_of_mem h hc).2.2.1 rfl
  blanks c hc hblank := by
    rw [(isPlain_of_mem h hc).1] at hblank
    cases hblank
  head := by
    obtain ⟨c, rest, rfl⟩ := List.exists_cons_of_ne_nil hne
    obtain ⟨hblank, -, hclose, -⟩ := isPlain_of_mem h List.mem_cons_self
    exact ⟨c, rest, rfl, hblank, hclose⟩
  last := by
    obtain ⟨hblank, hopen, -⟩ := isPlain_of_mem h (List.getLast_mem hne)
    exact ⟨_, List.getLast?_eq_some_getLast hne, hblank, hopen⟩

/-- A sign that is no brace. -/
theorem sign {c : Char} (h : isPlain c = true) : LaidOut depth [c] :=
  .word (List.cons_ne_nil c []) (by rw [List.all_cons, h]; rfl)

/-- A block without statements. -/
theorem braces : LaidOut depth ['{', '}'] where
  even := rfl
  breaks := .of_notMem (by decide)
  parted := {
    semicolon := .of_notMem (by decide)
    opening := .cons (fun _ => .inr rfl) (.of_notMem (by decide))
    closing := .cons (fun heq => absurd heq (by decide))
      (.cons (fun _ => .inl rfl) (.of_notMem List.not_mem_nil)) }
  blanks c hc hblank := by
    have hsolid : ['{', '}'].any isBlank = false := by decide
    exact absurd hblank (List.any_eq_false.1 hsolid c hc)
  head := ⟨'{', ['}'], rfl, by decide, by decide⟩
  last := ⟨'}', rfl, by decide, by decide⟩

theorem head_append (h : LaidOut depth cs) (more : List Char) :
    ∃ c rest, cs ++ more = c :: rest ∧ isBlank c = false ∧ c ≠ '}' := by
  obtain ⟨c, rest, rfl, hblank, hclose⟩ := h.head
  exact ⟨c, rest ++ more, rfl, hblank, hclose⟩

theorem last_append (h : LaidOut depth cs) (more : List Char) :
    ∃ c, (more ++ cs).getLast? = some c ∧ isBlank c = false ∧ c ≠ '{' := by
  obtain ⟨c, hc, hlast⟩ := h.last
  exact ⟨c, by rw [List.getLast?_append, hc, Option.some_or], hlast⟩

/-- Two texts on one line, with blanks between them or without. -/
theorem join (h : LaidOut depth cs) {gap : List Char} (hgap : ∀ c ∈ gap, c = ' ')
    (h' : LaidOut depth cs') : LaidOut depth (cs ++ (gap ++ cs')) := by
  have hcount {c : Char} (hc : c ≠ ' ') : gap.count c = 0 :=
    List.count_eq_zero.2 fun hmem => hc (hgap c hmem)
  have hopen : gap.count '{' = 0 := hcount (by decide)
  have hclose : gap.count '}' = 0 := hcount (by decide)
  have hfeed : BrokenWell depth gap := .of_notMem fun hmem => absurd (hgap _ hmem) (by decide)
  have hparted : Parted gap := .of_notMem (fun hmem => absurd (hgap _ hmem) (by decide))
    (List.count_eq_zero.1 hopen) (List.count_eq_zero.1 hclose)
  refine ⟨?_, ?_, h.parted.append (hparted.append h'.parted), fun c hc hblank => ?_,
    h.head_append _, ?_⟩
  · simp only [List.count_append, hopen, hclose, h.even, h'.even]
  · exact h.breaks.append (by rw [h.even]) (hfeed.append (by rw [hopen, hclose]) h'.breaks)
  · rcases List.mem_append.1 hc with hc | hc
    · exact h.blanks c hc hblank
    rcases List.mem_append.1 hc with hc | hc
    · exact .inl (hgap c hc)
    · exact h'.blanks c hc hblank
  · rw [← List.append_assoc]
    exact h'.last_append _

theorem append (h : LaidOut depth cs) (h' : LaidOut depth cs') : LaidOut depth (cs ++ cs') :=
  h.join (List.forall_mem_nil _) h'

theorem spaced (h : LaidOut depth cs) (h' : LaidOut depth cs') : LaidOut depth (cs ++ ' ' :: cs') :=
  h.join (List.forall_mem_singleton.2 rfl) h'

/-- A text in parentheses. -/
theorem parens (h : LaidOut depth cs) : LaidOut depth ('(' :: cs ++ [')']) := by
  have hopen : LaidOut depth ['('] := .sign (by decide)
  have hclose : LaidOut depth [')'] := .sign (by decide)
  exact (hopen.append h).append hclose

/-- A statement on a line of its own after another one. -/
theorem statement (h : LaidOut depth cs) (h' : LaidOut depth cs') :
    LaidOut depth (cs ++ (';' :: '\n' :: List.replicate (4 * depth) ' ' ++ cs')) := by
  obtain ⟨first, rest, hfirst, hsolid, hclose⟩ := h'.head
  have hsemicolon : BrokenWell depth [';'] := .of_notMem (by decide)
  have hpre : BrokenWell depth (cs ++ [';']) := h.breaks.append (by rw [h.even]) hsemicolon
  have heven : (cs ++ [';']).count '}' = (cs ++ [';']).count '{' := by
    simp [List.count_append, h.even]
  have hbreak : LineBreak depth (cs ++ [';']) (List.replicate (4 * depth) ' ' ++ cs') ';' first
      depth := {
    ends := List.getLast?_concat
    starts := ⟨rest, by rw [hfirst]⟩
    solid := hsolid
    depth_eq := by rw [if_neg hclose, heven]
    place := .inl ⟨rfl, hclose⟩ }
  have heq : cs ++ (';' :: '\n' :: List.replicate (4 * depth) ' ' ++ cs') =
      cs ++ [';'] ++ '\n' :: (List.replicate (4 * depth) ' ' ++ cs') := by simp
  have hparted : Parted (';' :: '\n' :: List.replicate (4 * depth) ' ') := .ending (by decide) _
  refine ⟨?_, ?_, h.parted.append (hparted.append h'.parted), fun c hc hblank => ?_,
    h.head_append _, ?_⟩
  · simp [List.count_append, List.count_replicate, h.even, h'.even]
  · rw [heq]
    exact hpre.feed (by rw [heven]) h'.breaks hbreak
  · simp only [List.mem_append, List.mem_cons, List.mem_replicate] at hc
    rcases hc with hc | (rfl | rfl | ⟨-, rfl⟩) | hc
    · exact h.blanks c hc hblank
    · exact absurd hblank (by decide)
    · exact .inr rfl
    · exact .inl rfl
    · exact h'.blanks c hc hblank
  · rw [← List.append_assoc]
    exact h'.last_append _

/-- A block with its braces on lines of their own. -/
theorem block (h : LaidOut (depth + 1) cs) :
    LaidOut depth ('{' :: '\n' :: List.replicate (4 * (depth + 1)) ' ' ++ cs ++
      '\n' :: List.replicate (4 * depth) ' ' ++ ['}']) := by
  obtain ⟨first, rest, hfirst, hsolid, hclose⟩ := h.head
  obtain ⟨last, hlast, hsolid', hopen⟩ := h.last
  have hbrace : BrokenWell depth ['{'] := .of_notMem (by decide)
  have hbrace' : BrokenWell (depth + 1) ['}'] := .of_notMem (by decide)
  have hbreak : LineBreak depth ['{'] (List.replicate (4 * (depth + 1)) ' ' ++ cs) '{' first
      (depth + 1) := {
    ends := rfl
    starts := ⟨rest, by rw [hfirst]⟩
    solid := hsolid
    depth_eq := by rw [if_neg hclose]; rfl
    place := .inr (.inl ⟨rfl, hclose⟩) }
  have hbody := hbrace.feed (by rfl) h.breaks hbreak
  have hdepth : depth + 1 + (['{'] ++ '\n' :: (List.replicate (4 * (depth + 1)) ' ' ++ cs)).count '}' =
      depth + (['{'] ++ '\n' :: (List.replicate (4 * (depth + 1)) ' ' ++ cs)).count '{' := by
    simp [List.count_append, List.count_replicate, h.even]
    omega
  have hbreak' : LineBreak depth (['{'] ++ '\n' :: (List.replicate (4 * (depth + 1)) ' ' ++ cs))
      (List.replicate (4 * depth) ' ' ++ ['}']) last '}' depth := {
    ends := by
      have heq : ['{'] ++ '\n' :: (List.replicate (4 * (depth + 1)) ' ' ++ cs) =
          '{' :: '\n' :: List.replicate (4 * (depth + 1)) ' ' ++ cs := by simp
      rw [heq, List.getLast?_append, hlast, Option.some_or]
    starts := ⟨[], rfl⟩
    solid := by decide
    depth_eq := by rw [if_pos rfl, hdepth]
    place := .inr (.inr ⟨hopen, hsolid', rfl⟩) }
  have heq : '{' :: '\n' :: List.replicate (4 * (depth + 1)) ' ' ++ cs ++
      '\n' :: List.replicate (4 * depth) ' ' ++ ['}'] =
      ['{'] ++ '\n' :: (List.replicate (4 * (depth + 1)) ' ' ++ cs) ++
        '\n' :: (List.replicate (4 * depth) ' ' ++ ['}']) := by simp
  have hparted : Parted ('{' :: '\n' :: List.replicate (4 * (depth + 1)) ' ') :=
    .ending (by decide) _
  refine ⟨?_, ?_, ?_, fun c hc hblank => ?_, ⟨'{', _, rfl, by decide, by decide⟩, ?_⟩
  · simp [List.count_append, List.count_replicate, h.even]
  · rw [heq]
    exact hbody.feed hdepth hbrace' hbreak'
  · rw [List.append_assoc]
    exact (hparted.append h.parted).append (.starting _)
  · simp only [List.mem_append, List.mem_cons, List.mem_replicate, List.not_mem_nil, or_false] at hc
    rcases hc with (((rfl | rfl | ⟨-, rfl⟩) | hc) | rfl | ⟨-, rfl⟩) | rfl
    · exact absurd hblank (by decide)
    · exact .inr rfl
    · exact .inl rfl
    · exact h.blanks c hc hblank
    · exact .inr rfl
    · exact .inl rfl
    · exact absurd hblank (by decide)
  · exact ⟨'}', List.getLast?_concat, by decide, by decide⟩

/-- Texts between each two of which stands something that two texts may have between them. -/
theorem intercalate {separator : List Char} {texts : List (List Char)} (hne : texts ≠ [])
    (hjoin : ∀ cs cs', LaidOut depth cs → LaidOut depth cs' → LaidOut depth (cs ++ (separator ++ cs')))
    (h : ∀ cs ∈ texts, LaidOut depth cs) : LaidOut depth (List.intercalate separator texts) := by
  induction texts with
  | nil => exact absurd rfl hne
  | cons cs texts ih =>
    obtain ⟨hcs, hothers⟩ := List.forall_mem_cons.1 h
    cases texts with
    | nil => rwa [List.intercalate_singleton]
    | cons cs' texts =>
      rw [List.intercalate_cons_cons, List.append_assoc]
      exact hjoin _ _ hcs (ih (List.cons_ne_nil _ _) hothers)

/-- Texts in parentheses, with commas between each two. -/
theorem listed {texts : List (List Char)} (h : ∀ cs ∈ texts, LaidOut depth cs) :
    LaidOut depth ('(' :: List.intercalate [',', ' '] texts ++ [')']) := by
  have hcomma : LaidOut depth [','] := .sign (by decide)
  cases texts with
  | nil => exact .word (List.cons_ne_nil _ _) (by decide)
  | cons cs texts =>
    refine .parens (.intercalate (List.cons_ne_nil _ _) (fun cs cs' h h' => ?_) h)
    exact h.append (hcomma.spaced h')

end LaidOut

/-! ## Lines -/

/-- A text starts with something solid after some blanks. -/
def StartsSolid (cs : List Char) : Prop :=
  ∃ blanks first rest, cs = List.replicate blanks ' ' ++ first :: rest ∧ isBlank first = false

theorem startsSolid_cons {c : Char} (h : StartsSolid (c :: cs)) :
    isBlank c = false ∨ c = ' ' ∧ StartsSolid cs := by
  obtain ⟨blanks, first, rest, heq, hsolid⟩ := h
  cases blanks with
  | zero =>
    obtain ⟨rfl, -⟩ := List.cons.inj heq
    exact .inl hsolid
  | succ blanks =>
    obtain ⟨rfl, htail⟩ := List.cons.inj heq
    exact .inr ⟨rfl, blanks, first, rest, htail, hsolid⟩

theorem isBlank_of_endsLine {c : Char} (h : endsLine c = true) : isBlank c = true := by
  have hblank : ['\n', '\r', '\x0b', '\x0c', '\x1c', '\x1d', '\x1e', '\u0085', '\u2028',
      '\u2029'].all isBlank = true := by decide
  exact List.all_eq_true.1 hblank c (List.contains_iff_mem.1 h)

/-- No line is blank where each one starts with something solid after some blanks. -/
theorem linesFrom_solid {line : List Char}
    (hblanks : ∀ c ∈ cs, isBlank c = true → c = ' ' ∨ c = '\n')
    (hfeeds : ∀ before behind, cs = before ++ '\n' :: behind → StartsSolid behind)
    (hline : (∃ c ∈ line, isBlank c = false) ∨ StartsSolid cs) :
    ∀ l ∈ linesFrom cs line, ∃ c ∈ l, isBlank c = false := by
  have hreverse {line : List Char} (h : ∃ c ∈ line, isBlank c = false) :
      ∃ c ∈ line.reverse, isBlank c = false := by
    obtain ⟨c, hc, hsolid⟩ := h
    exact ⟨c, List.mem_reverse.2 hc, hsolid⟩
  fun_induction linesFrom cs line with
  | case1 => exact List.forall_mem_nil _
  | case2 line hne =>
    refine List.forall_mem_singleton.2 (hreverse (hline.resolve_right ?_))
    rintro ⟨blanks, first, rest, heq, -⟩
    cases (List.append_eq_nil_iff.1 heq.symm).2
  | case3 rest line ih => exact absurd (hblanks '\r' List.mem_cons_self (by decide)) (by decide)
  | case4 c rest line hreturn hends ih =>
    have hblank := isBlank_of_endsLine hends
    obtain ⟨-, hothers⟩ := List.forall_mem_cons.1 hblanks
    obtain rfl : c = '\n' := by
      refine (hblanks c List.mem_cons_self hblank).resolve_left ?_
      rintro rfl
      cases hends
    have hthis : ∃ c ∈ line, isBlank c = false := by
      refine hline.resolve_right fun hstarts => ?_
      rcases startsSolid_cons hstarts with hsolid | ⟨heq, -⟩
      · cases hsolid.symm.trans hblank
      · cases heq
    refine List.forall_mem_cons.2 ⟨hreverse hthis, ih hothers (fun before behind heq => ?_) ?_⟩
    · exact hfeeds ('\n' :: before) behind (congrArg _ heq)
    · exact .inr (hfeeds [] rest rfl)
  | case5 c rest line hreturn hinside ih =>
    obtain ⟨-, hothers⟩ := List.forall_mem_cons.1 hblanks
    refine ih hothers (fun before behind heq => hfeeds (c :: before) behind (congrArg _ heq)) ?_
    rcases hline with ⟨d, hd, hsolid⟩ | hstarts
    · exact .inl ⟨d, List.mem_cons_of_mem c hd, hsolid⟩
    rcases startsSolid_cons hstarts with hsolid | ⟨-, hrest⟩
    · exact .inl ⟨c, List.mem_cons_self, hsolid⟩
    · exact .inr hrest

/-- A text is indented by its braces. -/
structure Indented (text : List Char) : Prop where
  /-- Behind each line feed come four blanks for each open brace, and then something solid. -/
  breaks : BrokenWell 0 text
  /-- Lines end where they should. -/
  parted : Parted text
  /-- No line is blank. -/
  lines : ∀ line ∈ lines text, ∃ c ∈ line, isBlank c = false
  /-- Only line feeds end lines, and other blank characters are common blanks. -/
  blanks : ∀ c ∈ text, isBlank c = true → c = ' ' ∨ c = '\n'

theorem LaidOut.indented (h : LaidOut 0 cs) : Indented cs where
  breaks := h.breaks
  parted := h.parted
  lines := by
    refine linesFrom_solid h.blanks (fun before behind heq => ?_) (.inr ?_)
    · obtain ⟨last, first, indent, hbreak⟩ := h.breaks before behind heq
      obtain ⟨rest, hrest⟩ := hbreak.starts
      exact ⟨_, first, rest, hrest, hbreak.solid⟩
    · obtain ⟨first, rest, hfirst, hsolid, -⟩ := h.head
      exact ⟨0, first, rest, hfirst, hsolid⟩
  blanks := h.blanks

end Calculator.Text
