import Calculator.CommandLine

/-
  The program: carries out its arguments and writes what that gives.  Without a seed the generator
  starts from random bytes of the system; nothing is highlighted.
-/

/-- Runs the command line. -/
def main (arguments : List String) : IO UInt32 := do
  let bytes ← IO.getRandomBytes 16
  let chance : Nat := bytes.foldl (fun n byte => 256 * n + byte.toNat) 0
  match Calculator.CommandLine.run Calculator.Report.plain chance (arguments.map String.toList) with
  | .ok t =>
    (← IO.getStdout).putStr (String.ofList t.output)
    (← IO.getStderr).putStr (String.ofList t.errors)
    return UInt32.ofNat t.status
  | .error breakdown =>
    (← IO.getStderr).putStrLn (breakdown.name ++ ": " ++ breakdown.message)
    return 1
