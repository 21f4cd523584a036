import Calculator.CommandLine.Options
import Calculator.Report

/-
  The command line: expressions are laid out anew or evaluated, one after another on one machine,
  and a fault in one does not stop the others.  Results, listings and layouts go to the output;
  faults, warnings and the log go to the error output.  A command whose seed or mode is set but
  blank breaks off before it writes anything.
-/

namespace Calculator.CommandLine

/-- What a command has written, and its status so far. -/
structure Transcript where
  status : Nat := 0
  output : List Char := []
  errors : List Char := []

namespace Transcript

/-- Writes a line to the output. -/
def print (t : Transcript) (line : List Char) : Transcript :=
  { t with output := t.output ++ line ++ ['\n'] }

/-- Writes to the error output. -/
def report (t : Transcript) (text : List Char) : Transcript :=
  { t with errors := t.errors ++ text }

/-- Writes notices to the error output, when they are asked for. -/
def log (t : Transcript) (verbose : Bool) (notices : List Notice) : Transcript :=
  if verbose then t.report (notices.flatMap fun n => n.text ++ ['\n']) else t

/-- Reports a fault. -/
def fail (t : Transcript) (highlight : Report.Highlighter) (shown : List Char) (f : Fault) :
    Transcript :=
  { t.report (Report.fault highlight shown f) with status := 1 }

end Transcript

/-- How the program is called. -/
def usage : String :=
  "usage: calcvm [-h] [-s SEED] [-f \x7bminified,spaced,indented\x7d] [-b] [-v]\n" ++
  "              EXPR [EXPR ...]\n"

/-- What the program does, and its options. -/
def help : String :=
  usage ++
  "\nCompile and evaluate calculator expressions\n" ++
  "\npositional arguments:\n" ++
  "  EXPR                  expression to evaluate\n" ++
  "\noptions:\n" ++
  "  -h, --help            show this help message and exit\n" ++
  "  -s SEED, --seed SEED  seed for rand()\n" ++
  "  -f \x7bminified,spaced,indented\x7d, --format \x7bminified,spaced,indented\x7d\n" ++
  "                        print the expression reformatted instead of evaluating\n" ++
  "                        it\n" ++
  "  -b, --bytecode        print the compiled codes before running\n" ++
  "  -v, --verbose         enable debug logging\n" ++
  "\nexamples:\n" ++
  "  calcvm \"2 + 3 * 5\"\n" ++
  "  calcvm \"let f = (x) => x^2\" \"f(12)\"\n" ++
  "  calcvm --format indented \"let calc = (x) => \x7b let y = 2(x + 1); y^2 + y + 3 \x7d\"\n" ++
  "        \n"

/-- The line that shows a result. -/
def resultLine (result : Option Number) : List Char :=
  "result = ".toList ++ result.elim "undefined".toList Number.plain

/-- Lays out an expression anew. -/
def layOut [Limits] (settings : Settings) (highlight : Report.Highlighter) (mode : Mode)
    (expression : List Char) (t : Transcript) : Transcript :=
  let source := String.ofList expression
  let t := t.log settings.verbose (Notice.ofSource false source)
  match formatSource mode source with
  | .ok text => t.print text
  | .error f => t.fail highlight expression f

/-- Runs the code of an expression and shows its result. -/
def runCode [Limits] (settings : Settings) (highlight : Report.Highlighter)
    (expression : List Char) (code : List Instr) (t : Transcript) (m : Machine) :
    Transcript × Machine :=
  let (failure, m) := m.exec code
  let t := t.log settings.verbose (m.diagnostics.map .noted)
  match failure with
  | some f => (t.fail highlight expression f, m)
  | none =>
    let (result, m) := m.popResult
    ((t.report (Report.warnings highlight m)).print (resultLine result), m)

/-- Evaluates an expression. -/
def evaluate [Limits] (settings : Settings) (highlight : Report.Highlighter)
    (expression : List Char) (t : Transcript) (m : Machine) : Transcript × Machine :=
  let source := String.ofList expression
  let t := t.log settings.verbose (Notice.ofSource true source)
  match compileSource source with
  | .error f => (t.fail highlight expression f, m)
  | .ok code =>
    let t := if settings.listing then t.print (listing 0 code) else t
    runCode settings highlight expression code t m

/-- Carries out what was asked for, one expression after another. -/
def carryOut [Limits] (settings : Settings) (highlight : Report.Highlighter) (t : Transcript)
    (m : Machine) : Transcript :=
  (settings.expressions.foldl (fun (t, m) expression =>
    match settings.mode with
    | .given mode => (layOut settings highlight mode expression t, m)
    | .unset | .blank => evaluate settings highlight expression t m) (t, m)).1

/-- Why a command breaks off: a setting that it needs is blank. -/
inductive Breakdown where
  | seed | mode
deriving DecidableEq, Repr

namespace Breakdown

/-- The name of the kind of a breakdown. -/
def name : Breakdown → String
  | seed => "TypeError"
  | mode => "ValueError"

/-- The message of a breakdown. -/
def message : Breakdown → String
  | seed => "The only supported seed types are: None,\nint, float, str, bytes, and bytearray."
  | mode => "[] is not a valid FormatMode"

end Breakdown

/-- Why settings cannot be used, if they cannot; the seed is needed first. -/
def Settings.breakdown? (s : Settings) : Option Breakdown :=
  match s.seed, s.mode with
  | .blank, _ => some .seed
  | _, .blank => some .mode
  | _, _ => none

/-- What the program does with its arguments.  The seed that the arguments may give is `chance`
otherwise. -/
def run [Limits] (highlight : Report.Highlighter) (chance : Int)
    (arguments : List (List Char)) : Except Breakdown Transcript :=
  match Settings.ofArguments arguments with
  | .error .help => .ok { output := help.toList }
  | .error (.refused message) =>
    .ok { status := 2, errors := usage.toList ++ "calcvm: error: ".toList ++ message ++ ['\n'] }
  | .ok settings =>
    match settings.breakdown? with
    | some breakdown => .error breakdown
    | none => .ok (carryOut settings highlight {} (Machine.new (settings.seed.getD chance)))

end Calculator.CommandLine
