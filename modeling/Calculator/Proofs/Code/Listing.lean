import Calculator.Code.Listing
import Calculator.Proofs.Code.Append
import Calculator.Proofs.Expr.Printable
import Calculator.Proofs.Number.Text

/-
  Listings read back.  The text of an instruction starts with the name of its opcode, and what comes
  after it says everything about the instruction but the code inside, of which it tells the length
  (`Alike`).  So the lines of some code are read from the first on: each says which instruction comes
  next and how many instructions are listed inside it before the one after it (`linesOnto_inj`).  A
  listing has no line feed but between its lines, hence it tells the code that is listed
  (`listing_inj`).
-/

namespace Calculator

/-! ## Opcodes -/

/-- What instructions are called. -/
inductive Opcode where
  | push | pushRandom | load | assign | bind
  | arithmetic (op : Arithmetic)
  | compare
  | unary (op : Unary)
  | pushRoutine | call | skipUnless | branch | enter | leave
deriving DecidableEq

namespace Opcode

/-- The name of an opcode in listings. -/
def mnemonic : Opcode → String
  | push => "PUSH"
  | pushRandom => "PUSH_RANDOM"
  | load => "LOAD_LOCAL"
  | assign => "ASSIGN"
  | bind => "SHADOW_ASSIGN"
  | arithmetic op => op.mnemonic
  | compare => "COMPARE_OP"
  | unary op => op.mnemonic
  | pushRoutine => "PUSH_ROUTINE"
  | call => "CALL_ROUTINE"
  | skipUnless => "SKIP_IF_NOT"
  | branch => "IF_ELSE"
  | enter => "ENTER"
  | leave => "LEAVE"

/-- All opcodes. -/
def all : List Opcode :=
  [push, pushRandom, load, assign, bind] ++ [.add, .sub, .mul, .div, .mod, .pow].map arithmetic ++
    [compare] ++ [.sin, .cos, .log, .round, .floor].map unary ++
    [pushRoutine, call, skipUnless, branch, enter, leave]

/-- The opcode of a name. -/
def ofMnemonic? (name : String) : Option Opcode := all.find? (·.mnemonic == name)

theorem ofMnemonic?_mnemonic (o : Opcode) : ofMnemonic? o.mnemonic = some o := by
  rcases o with _ | _ | _ | _ | _ | op | _ | op | _ | _ | _ | _ | _ | _
  case arithmetic | unary => cases op <;> decide
  all_goals decide

/-- Every opcode has a name of its own. -/
theorem mnemonic_inj {o o' : Opcode} (h : o.mnemonic = o'.mnemonic) : o = o' := by
  have hname := congrArg ofMnemonic? h
  rw [ofMnemonic?_mnemonic, ofMnemonic?_mnemonic] at hname
  exact Option.some.inj hname

theorem mnemonic_chars (o : Opcode) : ' ' ∉ o.mnemonic.toList ∧ '\n' ∉ o.mnemonic.toList := by
  rcases o with _ | _ | _ | _ | _ | op | _ | op | _ | _ | _ | _ | _ | _
  case arithmetic | unary => cases op <;> decide
  all_goals decide

end Opcode

namespace Instr

/-! ## The text of an instruction -/

/-- The opcode of an instruction that the machine knows. -/
def opcode? : Instr → Option Opcode
  | push _ => some .push
  | pushRandom => some .pushRandom
  | load _ => some .load
  | assign _ => some .assign
  | bind _ => some .bind
  | arithmetic op => some (.arithmetic op)
  | compare _ => some .compare
  | unary op => some (.unary op)
  | pushRoutine _ => some .pushRoutine
  | call => some .call
  | skipUnless _ => some .skipUnless
  | branch _ _ => some .branch
  | enter => some .enter
  | leave => some .leave
  | unknown _ => none

/-- What the text of an instruction says after the name of its opcode. -/
def detail : Instr → List Char
  | push value => ' ' :: Number.text value
  | load name | assign name | bind name => ' ' :: name.toList
  | compare place => ' ' :: (toString place).toList ++
      ((Comparison.ofPlace? place).elim [] fun c => ' ' :: '(' :: c.symbol.spelling ++ [')'])
  | pushRoutine body | skipUnless body =>
    " (".toList ++ Nat.toDigits 10 body.length ++ " codes)".toList
  | branch consequent alternate => " (".toList ++ Nat.toDigits 10 consequent.length ++
      ' ' :: "codes, ".toList ++ Nat.toDigits 10 alternate.length ++ " codes)".toList
  | _ => []

theorem text_eq {i : Instr} {o : Opcode} (h : i.opcode? = some o) :
    i.text = o.mnemonic.toList ++ i.detail := by
  cases i <;> cases h
  case pushRandom | arithmetic | unary | call | enter | leave => exact (List.append_nil _).symm
  all_goals rfl

/-- A blank comes after the name, or nothing. -/
theorem detail_blank (i : Instr) : ∃ rest, i.detail ++ [' '] = ' ' :: rest := by
  cases i <;> exact ⟨_, rfl⟩

/-- A text tells the opcode, and what comes after its name. -/
theorem detail_of_text {i i' : Instr} {o o' : Opcode} (ho : i.opcode? = some o)
    (ho' : i'.opcode? = some o') (h : i.text = i'.text) : o = o' ∧ i.detail = i'.detail := by
  obtain ⟨rest, hrest⟩ := i.detail_blank
  obtain ⟨rest', hrest'⟩ := i'.detail_blank
  have hcut : o.mnemonic.toList ++ ' ' :: rest = o'.mnemonic.toList ++ ' ' :: rest' := by
    rw [← hrest, ← hrest', ← List.append_assoc, ← List.append_assoc, ← text_eq ho, ← text_eq ho', h]
  obtain ⟨hname, rfl⟩ := Text.cut_inj o.mnemonic_chars.1 o'.mnemonic_chars.1 hcut
  exact ⟨Opcode.mnemonic_inj (String.toList_inj.1 hname),
    List.append_cancel_right (hrest.trans hrest'.symm)⟩

/-! ## Legible instructions -/

/-- What the code of a program is made of: numbers are numbers, names are written in one line,
comparisons exist, and the machine knows every instruction. -/
inductive Legible : Instr → Prop where
  | push {value : Number} (h : value.IsNumber) : Legible (.push value)
  | pushRandom : Legible .pushRandom
  | load {name : String} (h : '\n' ∉ name.toList) : Legible (.load name)
  | assign {name : String} (h : '\n' ∉ name.toList) : Legible (.assign name)
  | bind {name : String} (h : '\n' ∉ name.toList) : Legible (.bind name)
  | arithmetic (op : Arithmetic) : Legible (.arithmetic op)
  | compare (c : Comparison) : Legible (.compare c.place)
  | unary (op : Unary) : Legible (.unary op)
  | pushRoutine {body : List Instr} (h : ∀ i ∈ body, Legible i) : Legible (.pushRoutine body)
  | call : Legible .call
  | skipUnless {body : List Instr} (h : ∀ i ∈ body, Legible i) : Legible (.skipUnless body)
  | branch {consequent alternate : List Instr} (hconsequent : ∀ i ∈ consequent, Legible i)
      (halternate : ∀ i ∈ alternate, Legible i) : Legible (.branch consequent alternate)
  | enter : Legible .enter
  | leave : Legible .leave

variable {i i' : Instr}

theorem Legible.opcode (h : i.Legible) : ∃ o, i.opcode? = some o := by
  cases h <;> exact ⟨_, rfl⟩

/-- An instruction without code inside. -/
def IsPlain : Instr → Prop
  | pushRoutine _ | skipUnless _ | branch _ _ => False
  | _ => True

/-- Instructions that are the same but for the code inside, of which they have as much. -/
inductive Alike : Instr → Instr → Prop where
  | plain {i : Instr} (h : i.IsPlain) : Alike i i
  | pushRoutine {body body' : List Instr} (h : body.length = body'.length) :
      Alike (.pushRoutine body) (.pushRoutine body')
  | skipUnless {body body' : List Instr} (h : body.length = body'.length) :
      Alike (.skipUnless body) (.skipUnless body')
  | branch {consequent consequent' alternate alternate' : List Instr}
      (hconsequent : consequent.length = consequent'.length)
      (halternate : alternate.length = alternate'.length) :
      Alike (.branch consequent alternate) (.branch consequent' alternate')

/-- The text of an instruction tells everything but the code inside. -/
theorem alike_of_text (hi : i.Legible) (hi' : i'.Legible) (h : i.text = i'.text) : Alike i i' := by
  obtain ⟨o, ho⟩ := hi.opcode
  obtain ⟨o', ho'⟩ := hi'.opcode
  obtain ⟨rfl, hdetail⟩ := detail_of_text ho ho' h
  have hopcode : i.opcode? = i'.opcode? := ho.trans ho'.symm
  cases hi with
  | pushRandom | arithmetic | unary | call | enter | leave =>
    cases hi' <;> cases hopcode
    exact .plain trivial
  | push hx =>
    cases hi' <;> cases hopcode
    next hy =>
    rw [Number.text_inj hx hy (List.cons.inj hdetail).2]
    exact .plain trivial
  | load | assign | bind =>
    cases hi' <;> cases hopcode
    rw [String.toList_inj.1 (List.cons.inj hdetail).2]
    exact .plain trivial
  | compare c =>
    cases hi' <;> cases hopcode
    next c' =>
    have hc : c = c' := by
      cases c <;> cases c' <;> first | rfl | exact absurd hdetail (by decide)
    rw [hc]
    exact .plain trivial
  | pushRoutine =>
    cases hi' <;> cases hopcode
    have hdigits := List.append_cancel_left (List.append_cancel_right hdetail)
    exact .pushRoutine (Numeral.toDigits_inj hdigits)
  | skipUnless =>
    cases hi' <;> cases hopcode
    have hdigits := List.append_cancel_left (List.append_cancel_right hdetail)
    exact .skipUnless (Numeral.toDigits_inj hdigits)
  | branch =>
    cases hi' <;> cases hopcode
    simp only [detail, List.append_assoc, List.cons_append] at hdetail
    have hblank (n : Nat) : ' ' ∉ Nat.toDigits 10 n := Numeral.not_mem_toDigits rfl n
    obtain ⟨hfirst, hrest⟩ := Text.cut_inj (hblank _) (hblank _) (List.append_cancel_left hdetail)
    have hsecond := List.append_cancel_right (List.append_cancel_left hrest)
    exact .branch (Numeral.toDigits_inj hfirst) (Numeral.toDigits_inj hsecond)

/-- The text of an instruction is one line. -/
theorem Legible.not_mem_feed (h : i.Legible) : '\n' ∉ i.text := by
  obtain ⟨o, ho⟩ := h.opcode
  have hdetail : '\n' ∉ i.detail := by
    have hdigits (n : Nat) : '\n' ∉ Nat.toDigits 10 n := Numeral.not_mem_toDigits rfl n
    cases h with
    | pushRandom | arithmetic | unary | call | enter | leave => exact List.not_mem_nil
    | push hx =>
      exact List.not_mem_cons_of_ne_of_not_mem (by decide) (Number.told_text hx).not_mem_feed
    | load hname | assign hname | bind hname =>
      exact List.not_mem_cons_of_ne_of_not_mem (by decide) hname
    | compare c => cases c <;> decide
    | pushRoutine | skipUnless | branch => simp [detail, hdigits]
  rw [text_eq ho, List.mem_append, not_or]
  exact ⟨o.mnemonic_chars.2, hdetail⟩

/-- Its comparison exists, if it is one. -/
theorem Legible.misplaced?_eq (h : i.Legible) : i.misplaced? = none := by
  cases h
  case compare c => rw [misplaced?, Comparison.ofPlace?_place]; rfl
  all_goals rfl

end Instr

namespace Listing

open Instr

/-! ## Lines -/

theorem insideOnto_plain {i : Instr} (h : i.IsPlain) (depth : Nat) (after : List (List Char)) :
    insideOnto depth i after = after := by
  cases i <;> first | rfl | cases h

/-- The line of an instruction ends with its text, whatever the number. -/
theorem line_inj {depth number : Nat} {i i' : Instr}
    (h : line depth number i = line depth number i') : i.text = i'.text :=
  (List.cons.inj (List.append_cancel_left h)).2

theorem line_ne_nil (depth number : Nat) (i : Instr) : line depth number i ≠ [] :=
  List.append_ne_nil_of_right_ne_nil _ (List.cons_ne_nil _ _)

theorem not_mem_padding (depth : Nat) : '\n' ∉ padding depth := fun h =>
  absurd (List.eq_of_mem_replicate h) (by decide)

theorem not_mem_line {i : Instr} (h : i.Legible) (depth number : Nat) :
    '\n' ∉ line depth number i := by
  have hpadding := not_mem_padding depth
  have hdigits := Numeral.not_mem_toDigits (c := '\n') rfl number
  simp [line, hpadding, hdigits, h.not_mem_feed]

mutual
/-- No line of some code has a line feed. -/
theorem linesOnto_feeds {code : List Instr} (hcode : ∀ i ∈ code, i.Legible) (depth number : Nat)
    {after : List (List Char)} (hafter : ∀ l ∈ after, '\n' ∉ l) :
    ∀ l ∈ linesOnto depth number code after, '\n' ∉ l := by
  cases code with
  | nil => exact hafter
  | cons i code =>
    obtain ⟨hi, hcode⟩ := List.forall_mem_cons.1 hcode
    exact List.forall_mem_cons.2 ⟨not_mem_line hi depth number,
      insideOnto_feeds hi depth (linesOnto_feeds hcode depth (number + 1) hafter)⟩
theorem insideOnto_feeds {i : Instr} (hi : i.Legible) (depth : Nat) {after : List (List Char)}
    (hafter : ∀ l ∈ after, '\n' ∉ l) : ∀ l ∈ insideOnto depth i after, '\n' ∉ l := by
  have hheading {heading : List Char} (h : '\n' ∉ heading) :
      '\n' ∉ padding (depth + 1) ++ heading := by
    rw [List.mem_append, not_or]
    exact ⟨not_mem_padding _, h⟩
  cases hi with
  | pushRoutine h => exact linesOnto_feeds h (depth + 1) 0 hafter
  | skipUnless h => exact linesOnto_feeds h (depth + 1) 0 hafter
  | branch hconsequent halternate =>
    refine List.forall_mem_cons.2 ⟨hheading (by decide), linesOnto_feeds hconsequent _ 0 ?_⟩
    exact List.forall_mem_cons.2 ⟨hheading (by decide), linesOnto_feeds halternate _ 0 hafter⟩
  | _ => exact hafter
end

mutual
/-- The lines of some code tell the code and where they end, if its length is known or no lines come
after them. -/
theorem linesOnto_inj {code code' : List Instr} (hcode : ∀ i ∈ code, i.Legible)
    (hcode' : ∀ i ∈ code', i.Legible) {depth number : Nat} {after after' : List (List Char)}
    (hend : code.length = code'.length ∨ after = [] ∧ after' = [])
    (h : linesOnto depth number code after = linesOnto depth number code' after') :
    code = code' ∧ after = after' := by
  match code, code' with
  | [], [] => exact ⟨rfl, h⟩
  | [], _ :: _ =>
    obtain hlength | ⟨rfl, -⟩ := hend
    · cases hlength
    · cases h
  | _ :: _, [] =>
    obtain hlength | ⟨-, rfl⟩ := hend
    · cases hlength
    · cases h
  | i :: code, i' :: code' =>
    obtain ⟨hi, hothers⟩ := List.forall_mem_cons.1 hcode
    obtain ⟨hi', hothers'⟩ := List.forall_mem_cons.1 hcode'
    obtain ⟨hline, hbelow⟩ := List.cons.inj h
    have halike := alike_of_text hi hi' (line_inj hline)
    have hlength : code.length = code'.length ∨ after = [] ∧ after' = [] :=
      hend.imp_left Nat.succ.inj
    obtain ⟨rfl, hrest⟩ := insideOnto_inj hi hi' halike hbelow
    obtain ⟨rfl, hafter⟩ := linesOnto_inj hothers hothers' hlength hrest
    exact ⟨rfl, hafter⟩
/-- The code inside an instruction has a known length, so its lines end where the next ones start. -/
theorem insideOnto_inj {i i' : Instr} (hi : i.Legible) (hi' : i'.Legible) (halike : Alike i i')
    {depth : Nat} {after after' : List (List Char)}
    (h : insideOnto depth i after = insideOnto depth i' after') : i = i' ∧ after = after' := by
  cases halike with
  | plain hplain =>
    rw [insideOnto_plain hplain, insideOnto_plain hplain] at h
    exact ⟨rfl, h⟩
  | pushRoutine hlength =>
    cases hi with | pushRoutine hbody =>
    cases hi' with | pushRoutine hbody' =>
    obtain ⟨rfl, hafter⟩ := linesOnto_inj hbody hbody' (.inl hlength) h
    exact ⟨rfl, hafter⟩
  | skipUnless hlength =>
    cases hi with | skipUnless hbody =>
    cases hi' with | skipUnless hbody' =>
    obtain ⟨rfl, hafter⟩ := linesOnto_inj hbody hbody' (.inl hlength) h
    exact ⟨rfl, hafter⟩
  | branch hconsequent halternate =>
    cases hi with | branch hthen helse =>
    cases hi' with | branch hthen' helse' =>
    obtain ⟨rfl, hheading⟩ := linesOnto_inj hthen hthen' (.inl hconsequent) (List.cons.inj h).2
    obtain ⟨rfl, hafter⟩ := linesOnto_inj helse helse' (.inl halternate) (List.cons.inj hheading).2
    exact ⟨rfl, hafter⟩
end

mutual
/-- Every comparison in some code exists. -/
theorem misplaced?_eq {code : List Instr} (hcode : ∀ i ∈ code, i.Legible) :
    misplaced? code = none := by
  cases code with
  | nil => rfl
  | cons i code =>
    obtain ⟨hi, hcode⟩ := List.forall_mem_cons.1 hcode
    rw [misplaced?, hi.misplaced?_eq, misplacedInside?_eq hi, misplaced?_eq hcode]
    rfl
theorem misplacedInside?_eq {i : Instr} (hi : i.Legible) : misplacedInside? i = none := by
  cases hi with
  | pushRoutine h => exact misplaced?_eq h
  | skipUnless h => exact misplaced?_eq h
  | branch hconsequent halternate =>
    rw [misplacedInside?, misplaced?_eq hconsequent, misplaced?_eq halternate]
    rfl
  | _ => rfl
end

end Listing

/-! ## Listings -/

section Listing

open Instr

variable {code code' : List Instr}

/-- The lines of some code are those of its listing. -/
theorem lines_of_listing (hcode : ∀ i ∈ code, i.Legible) (hne : code ≠ []) (depth : Nat) :
    (listing depth code).splitOn '\n' = Listing.lines depth code := by
  refine List.splitOn_intercalate '\n' ?_ ?_
  · exact Listing.linesOnto_feeds hcode depth 0 (List.forall_mem_nil _)
  · obtain ⟨i, code, rfl⟩ := List.exists_cons_of_ne_nil hne
    exact List.cons_ne_nil _ _

/-- The listing of some code is not empty. -/
theorem listing_ne_nil (hcode : ∀ i ∈ code, i.Legible) (hne : code ≠ []) (depth : Nat) :
    listing depth code ≠ [] := by
  intro hlisting
  have hlines := lines_of_listing hcode hne depth
  rw [hlisting] at hlines
  obtain ⟨i, code, rfl⟩ := List.exists_cons_of_ne_nil hne
  exact Listing.line_ne_nil depth 0 i (List.cons.inj hlines).1.symm

/-- A listing tells the code that is listed. -/
theorem listing_inj (hcode : ∀ i ∈ code, i.Legible) (hcode' : ∀ i ∈ code', i.Legible) (depth : Nat)
    (h : listing depth code = listing depth code') : code = code' := by
  by_cases hne : code = []
  · subst hne
    by_contra hne'
    exact listing_ne_nil hcode' (Ne.symm hne') depth h.symm
  by_cases hne' : code' = []
  · subst hne'
    exact absurd h (listing_ne_nil hcode hne depth)
  have hlines : Listing.lines depth code = Listing.lines depth code' := by
    rw [← lines_of_listing hcode hne, h, lines_of_listing hcode' hne']
  exact (Listing.linesOnto_inj hcode hcode' (.inr ⟨rfl, rfl⟩) hlines).1

end Listing

/-! ## The code of programs -/

namespace Expr

open Instr

theorem operator_legible (op : Operator) : op.instr.Legible := by
  cases op
  case equal | notEqual | less | lessEqual | greater | greaterEqual => exact .compare _
  all_goals exact .arithmetic _

theorem builtin_legible (f : Builtin) : ∀ i ∈ f.code, i.Legible := by
  have hhalf : (0.5 : Number).IsNumber := Decimal.float_ofScientific_ne_nan 5 true 1
  cases f with
  | sqrt => exact List.forall_mem_cons.2 ⟨.push hhalf, List.forall_mem_singleton.2 (.arithmetic _)⟩
  | _ => exact List.forall_mem_singleton.2 (.unary _)

/-- A name is written in one line. -/
theorem not_mem_name {name : String} (h : Scan.IsName name.toList) : '\n' ∉ name.toList := fun hmem =>
  absurd (h.chars _ hmem) (by decide)

theorem codeAllOnto_legible {es : List Expr} (hes : ∀ e ∈ es, ∀ i ∈ e.code, i.Legible) :
    ∀ i ∈ codeAllOnto es [], i.Legible := by
  induction es with
  | nil => exact List.forall_mem_nil _
  | cons e es ih =>
    obtain ⟨he, hes⟩ := List.forall_mem_cons.1 hes
    rw [codeAllOnto, codeOnto_eq]
    exact List.forall_mem_append.2 ⟨he, ih hes⟩

/-- What a program says has legible code. -/
theorem Printable.code_legible {e : Expr} (h : e.Printable) : ∀ i ∈ e.code, i.Legible := by
  induction h with
  | literal h => exact List.forall_mem_singleton.2 (.push h)
  | reference h => exact List.forall_mem_singleton.2 (.load (not_mem_name h))
  | random => exact List.forall_mem_singleton.2 .pushRandom
  | block h ih =>
    rw [code_block]
    refine List.forall_mem_cons.2 ⟨.enter, List.forall_mem_append.2 ⟨codeAllOnto_legible ih, ?_⟩⟩
    exact List.forall_mem_singleton.2 .leave
  | closure hparams h ih =>
    refine List.forall_mem_singleton.2 (.pushRoutine (List.forall_mem_append.2 ⟨?_, ih⟩))
    exact List.forall_mem_map.2 fun p hp => .bind (not_mem_name (hparams p hp))
  | ifThen htest hconsequent ih₁ ih₂ =>
    rw [code_ifThen]
    exact List.forall_mem_append.2 ⟨ih₁, List.forall_mem_singleton.2 (.skipUnless ih₂)⟩
  | ifElse htest hconsequent halternate ih₁ ih₂ ih₃ =>
    rw [code_ifElse]
    exact List.forall_mem_append.2 ⟨ih₁, List.forall_mem_singleton.2 (.branch ih₂ ih₃)⟩
  | assign hname h ih =>
    rw [code_assign]
    exact List.forall_mem_append.2 ⟨ih, List.forall_mem_singleton.2 (.assign (not_mem_name hname))⟩
  | binary hleft hright ih₁ ih₂ =>
    rw [code_binary]
    refine List.forall_mem_append.2 ⟨ih₁, List.forall_mem_append.2 ⟨ih₂, ?_⟩⟩
    exact List.forall_mem_singleton.2 (operator_legible _)
  | builtin h ih =>
    rw [code_builtin]
    exact List.forall_mem_append.2 ⟨ih, builtin_legible _⟩
  | call hname h ih =>
    rw [code_call]
    refine List.forall_mem_append.2
      ⟨codeAllOnto_legible fun e he => ih e (List.mem_reverse.1 he), ?_⟩
    exact List.forall_mem_cons.2 ⟨.load (not_mem_name hname), List.forall_mem_singleton.2 .call⟩

/-- A program has legible code. -/
theorem PrintableProgram.code_legible {e : Expr} (h : e.PrintableProgram) :
    ∀ i ∈ e.code, i.Legible := by
  cases h with
  | single h => exact h.code_legible
  | sequence h hlength => exact codeAllOnto_legible fun e he => (h e he).code_legible

end Expr

end Calculator
