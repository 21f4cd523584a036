import Calculator.Program
import Calculator.Text.Lines

/-
  Reports of faults and warnings.  A fault with a place in the program shows the line there, the
  rest of it highlighted from the place on, and a caret under it.  How text is highlighted is up to
  what shows the report.  A line or column past the end counts as the last one.
-/

namespace Calculator.Report

/-- The colours in use. -/
inductive Colour where
  | red | magenta
deriving DecidableEq, Repr

/-- How text is highlighted in a colour. -/
abbrev Highlighter := Colour → List Char → List Char

/-- Highlighting that leaves text as it is. -/
def plain : Highlighter := fun _ text => text

/-- The line of a program that holds a place, highlighted from the place on, with a caret under
it. -/
def marked (highlight : Highlighter) (source : List Char) (place : Location) (colour : Colour) :
    List Char :=
  let lines := Text.lines source
  let line := (lines[min place.line lines.length - 1]?).getD []
  let column := min (place.column - 1) line.length
  ' ' :: ' ' :: line.take column ++ highlight colour (line.drop column) ++
    '\n' :: ' ' :: ' ' :: List.replicate column ' ' ++ highlight colour ['^']

/-- The report of a warning. -/
def warning (highlight : Highlighter) (text : List Char) : List Char :=
  highlight .magenta "warning: ".toList ++ text ++ ['\n']

/-- The report of a fault of a shown program. -/
def fault (highlight : Highlighter) (shown : List Char) (f : Fault) : List Char :=
  let label := if f.isOfRun then "runtime error: " else "error: "
  highlight .red label.toList ++ f.message ++ '\n' ::
    match f.location? with
    | some place => if shown.isEmpty then [] else marked highlight shown place .red ++ ['\n']
    | none => []

/-- The reports of the diagnostics of a run. -/
def warnings (highlight : Highlighter) (m : Machine) : List Char :=
  m.diagnostics.flatMap fun d => warning highlight d.text

/-- What is reported when a program, if it has code, is run on a new machine, and whether it failed.
The warnings of a run that fails are not reported; a fault that is not the user's is given back. -/
def ofRun [Limits] (highlight : Highlighter) (shown : List Char) (code : Except Fault (List Instr)) :
    Except Fault (Bool × List Char) :=
  let (failure, m) :=
    match code with
    | .error f => (some f, Machine.new 0)
    | .ok code => (Machine.new 0).exec code
  match failure with
  | none => .ok (false, warnings highlight m)
  | some f =>
    if f.kind?.isSome then .ok (true, fault highlight shown f) else .error f

end Calculator.Report
