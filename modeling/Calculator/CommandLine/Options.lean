import Calculator.Expr.Format
import Calculator.Text.Blank
import Calculator.Text.DecimalDigit
import Calculator.Text.Quoted

/-
  Options of the command line.  An option has a letter after one hyphen and a word after two.
  Letters may stand together, and the last may carry its value; words may be cut short while they
  stay clear, and carry a value after an equals sign.  An equals sign after the first letter only
  divides it from what it carries, be that a value or more letters.  A negative number, a lone
  hyphen and an argument with a blank in it are expressions, and so is all after two hyphens.  Two
  hyphens are never a value: an option that they are attached to is set, but blank.  The expressions
  stand together: any that come later are left over.
-/

namespace Calculator.CommandLine

/-- The options. -/
inductive Flag where
  | help | seed | format | bytecode | verbose
deriving DecidableEq, Repr

namespace Flag

/-- All options. -/
def all : List Flag := [help, seed, format, bytecode, verbose]

/-- The letter of an option after its hyphen. -/
def short : Flag → List Char
  | help => ['-', 'h']
  | seed => ['-', 's']
  | format => ['-', 'f']
  | bytecode => ['-', 'b']
  | verbose => ['-', 'v']

/-- The word of an option after its hyphens. -/
def long : Flag → List Char
  | help => "--help".toList
  | seed => "--seed".toList
  | format => "--format".toList
  | bytecode => "--bytecode".toList
  | verbose => "--verbose".toList

/-- Whether an option has a value. -/
def takesValue : Flag → Bool
  | seed | format => true
  | help | bytecode | verbose => false

/-- The option with this letter or word. -/
def named? (text : List Char) : Option Flag :=
  all.find? fun f => f.short == text || f.long == text

end Flag

/-- What an argument is. -/
inductive Argument where
  /-- An expression, or the value of an option. -/
  | plain (text : List Char)
  /-- Two hyphens. -/
  | divider
  /-- An option as it was written, which one it is, and the text attached to it. -/
  | option (text : List Char) (flag : Flag) (isWord : Bool) (attached : Option (List Char))
  /-- Something that looks like an option and is none. -/
  | unknown (text : List Char)

namespace Argument

/-- Whether a text is a hyphen and a decimal number. -/
def isNegativeNumber (text : List Char) : Bool :=
  let isDigit (c : Char) : Bool := (Text.digitValue? c).isSome
  match text with
  | '-' :: number =>
    let number := if number.getLast? = some '\n' then number.dropLast else number
    let fraction := number.dropWhile isDigit
    if fraction.isEmpty then !number.isEmpty
    else fraction.head? = some '.' && !(fraction.drop 1).isEmpty && (fraction.drop 1).all isDigit
  | _ => false

/-- The text before the first equals sign, and the text after it if there is one. -/
def split (text : List Char) : List Char × Option (List Char) :=
  (text.takeWhile (· != '='),
    if text.contains '=' then some ((text.dropWhile (· != '=')).drop 1) else none)

/-- The options that an argument may stand for when its name is cut short or its value attached. -/
def candidates (text : List Char) : List Argument :=
  match text with
  | '-' :: '-' :: _ =>
    let (name, value) := split text
    (Flag.all.filter fun f => name.isPrefixOf f.long).map fun f =>
      .option text f true value
  | '-' :: letter :: value =>
    (Flag.all.filter fun f => f.short == ['-', letter]).map fun f =>
      .option text f false (some value)
  | _ => []

/-- What an argument is before two hyphens; fails with a message when its name is not clear. -/
def classify (text : List Char) : Except (List Char) Argument :=
  let (name, value) := split text
  match text with
  | '-' :: _ :: _ =>
    match Flag.named? text, Flag.named? name, value with
    | some f, _, _ => .ok (.option text f (f.long == text) none)
    | none, some f, some value => .ok (.option text f (f.long == name) (some value))
    | _, _, _ =>
      match candidates text with
      | [only] => .ok only
      | [] =>
        if isNegativeNumber text || text.contains ' ' then .ok (.plain text)
        else .ok (.unknown text)
      | _ =>
        .error ("ambiguous option: ".toList ++ text ++ " could match ".toList ++
          List.intercalate ", ".toList
            ((Flag.all.filter fun f => name.isPrefixOf f.long).map Flag.long))
  | _ => .ok (.plain text)

/-- What some arguments are. -/
def classifyAll : List (List Char) → Except (List Char) (List Argument)
  | [] => .ok []
  | text :: rest =>
    if text = ['-', '-'] then .ok (.divider :: rest.map .plain)
    else do
      let argument ← classify text
      return argument :: (← classifyAll rest)

/-- Whether an argument is an option, or looks like one. -/
def isOption : Argument → Bool
  | option .. | unknown _ => true
  | plain _ | divider => false

/-- An argument as it was written. -/
def text : Argument → List Char
  | plain text | unknown text | option text _ _ _ => text
  | divider => ['-', '-']

end Argument

/-- What the command line says of the value of an option. -/
inductive Setting (α : Type) where
  /-- The option is not there. -/
  | unset
  /-- The option is there, and two hyphens in the place of its value. -/
  | blank
  /-- The option has a value. -/
  | given (value : α)
deriving DecidableEq, Repr

namespace Setting

/-- Reads the text in the place of a value. -/
def read? (value? : List Char → Option α) (text : List Char) : Option (Setting α) :=
  if text = ['-', '-'] then some blank else (value? text).map given

/-- The value that is given, or another one. -/
def getD : Setting α → α → α
  | given value, _ => value
  | unset, other | blank, other => other

end Setting

/-- What the command line asks for. -/
structure Settings where
  seed : Setting Int := .unset
  mode : Setting Mode := .unset
  listing : Bool := false
  verbose : Bool := false
  expressions : List (List Char) := []

/-- Why the command line is not carried out as it stands. -/
inductive Stop where
  /-- Help was asked for. -/
  | help
  /-- The command line is refused with a message. -/
  | refused (message : List Char)

/-- Refuses the value of an option. -/
def refuse (f : Flag) (message : List Char) : Except Stop α :=
  .error (.refused ("argument ".toList ++ f.short ++ '/' :: f.long ++ ':' :: ' ' :: message))

/-- The value of digits of any script, with single underscores between them. -/
def digitsValue? (afterDigit : Bool) (value : Nat) : List Char → Option Nat
  | [] => if afterDigit then some value else none
  | '_' :: rest => if afterDigit then digitsValue? false value rest else none
  | c :: rest => (Text.digitValue? c).bind fun d => digitsValue? true (10 * value + d) rest

/-- Whether a character may surround a seed. -/
def surroundsSeed (c : Char) : Bool := Text.isBlank c && !(0x1c ≤ c.toNat && c.toNat ≤ 0x1f)

/-- The most digits that a seed may have. -/
def seedDigits : Nat := 4300

/-- The whole number that a text stands for: digits after at most one sign, perhaps with blanks
around. -/
def wholeNumber? (text : List Char) : Option Int :=
  let text := ((text.dropWhile surroundsSeed).reverse.dropWhile surroundsSeed).reverse
  let unsigned (text : List Char) : Option Nat :=
    if text.countP (· != '_') ≤ seedDigits then digitsValue? false 0 text else none
  match text with
  | '-' :: digits => (unsigned digits).map fun n => -(n : Int)
  | '+' :: digits => (unsigned digits).map Int.ofNat
  | digits => (unsigned digits).map Int.ofNat

namespace Settings

/-- Carries out an option without value. -/
def switch (s : Settings) : Flag → Except Stop Settings
  | .help => .error .help
  | .bytecode => .ok { s with listing := true }
  | .verbose => .ok { s with verbose := true }
  | .seed | .format => .ok s

/-- Carries out some options without value, one after another. -/
def switchAll (s : Settings) (flags : List Flag) : Except Stop Settings := flags.foldlM switch s

/-- Carries out an option with its value. -/
def assign (s : Settings) (f : Flag) (value : List Char) : Except Stop Settings :=
  match f with
  | .seed =>
    match Setting.read? wholeNumber? value with
    | some seed => .ok { s with seed }
    | none => refuse f ("invalid int value: ".toList ++ Text.quoted value)
  | .format =>
    match Setting.read? Mode.named? value with
    | some mode => .ok { s with mode }
    | none =>
      refuse f ("invalid choice: ".toList ++ Text.quoted value ++ " (choose from ".toList ++
        List.intercalate ", ".toList (Mode.all.map fun m => Text.quoted m.name.toList) ++ [')'])
  | .help | .bytecode | .verbose => .ok s

end Settings

/-- Options that were written together: those without value, then perhaps one that takes its value
from the text attached or from the next argument. -/
structure Bundle where
  switches : List Flag
  last : Option (Flag × Option (List Char))

namespace Bundle

/-- An option by itself. -/
def single (f : Flag) : Bundle := if f.takesValue then ⟨[], some (f, none)⟩ else ⟨[f], none⟩

/-- Refuses the text attached to an option that takes none. -/
def ignored (f : Flag) (attached : List Char) : Except Stop Bundle :=
  refuse f ("ignored explicit argument ".toList ++ Text.quoted attached)

/-- Takes apart the text attached to an option by its letter: a value, or more letters. -/
def ofLetters (f : Flag) : List Char → Except Stop Bundle
  | [] => .ok (single f)
  | letter :: rest =>
    if f.takesValue then .ok ⟨[], some (f, some (letter :: rest))⟩
    else
      match Flag.named? ['-', letter] with
      | none => ignored f (letter :: rest)
      | some next => do
        let bundle ← ofLetters next rest
        return { bundle with switches := f :: bundle.switches }

/-- Takes apart an option and the text attached to it. -/
def ofOption (f : Flag) (isWord : Bool) : Option (List Char) → Except Stop Bundle
  | none => .ok (single f)
  | some value =>
    if f.takesValue then .ok ⟨[], some (f, some value)⟩
    else if isWord || value.isEmpty then ignored f value
    else ofLetters f value

end Bundle

/-- What has been read of the command line. -/
structure Progress where
  settings : Settings := {}
  /-- Whether the expressions have been found. -/
  found : Bool := false
  /-- Arguments that have no place. -/
  leftover : List (List Char) := []

namespace Progress

/-- Reads arguments that stand together and are no options: they are the expressions if these have
not been found before. -/
def takePlain (p : Progress) (arguments : List Argument) : Progress :=
  let texts := arguments.map Argument.text
  let isPlain : Argument → Bool
    | .plain _ => true
    | _ => false
  if p.found || !arguments.any isPlain then { p with leftover := p.leftover ++ texts }
  else
    { p with found := true, settings := { p.settings with expressions := texts.erase ['-', '-'] } }

/-- Carries out a bundle of options; an option that still lacks its value takes the next argument. -/
def takeBundle (p : Progress) (b : Bundle) (next : List Argument) :
    Except Stop (Progress × List Argument) := do
  match b.last, next with
  | none, _ => return ({ p with settings := ← p.settings.switchAll b.switches }, next)
  | some (f, some value), _ =>
    return ({ p with settings := ← (← p.settings.switchAll b.switches).assign f value }, next)
  | some (f, none), .plain value :: next =>
    return ({ p with settings := ← (← p.settings.switchAll b.switches).assign f value }, next)
  | some (f, none), _ => refuse f "expected one argument".toList

/-- Reads at most so many runs of arguments. -/
def read : Nat → Progress → List Argument → Except Stop Progress
  | 0, p, _ => .ok p
  | _ + 1, p, [] => .ok p
  | count + 1, p, argument :: rest =>
    match argument with
    | .option _ f isWord attached => do
      let (p, rest) ← p.takeBundle (← Bundle.ofOption f isWord attached) rest
      read count p rest
    | .unknown text => read count { p with leftover := p.leftover ++ [text] } rest
    | .plain _ | .divider =>
      let others := rest.takeWhile (!·.isOption)
      read count (p.takePlain (argument :: others)) (rest.drop others.length)

end Progress

/-- What some arguments ask for. -/
def Settings.ofArguments (arguments : List (List Char)) : Except Stop Settings := do
  let arguments ← (Argument.classifyAll arguments).mapError .refused
  let p ← Progress.read arguments.length {} arguments
  if !p.found then throw (.refused "the following arguments are required: EXPR".toList)
  if !p.leftover.isEmpty then
    throw (.refused ("unrecognized arguments: ".toList ++ List.intercalate [' '] p.leftover))
  return p.settings

end Calculator.CommandLine
