import BlockScript.Report

/-!
# The command line

The program takes the file with a script and the file to save it to; both may be left out. Without a
script it reports on the sample.
-/

open BlockScript

/-- Report on the script in the file that the first argument names, and save it to the second. -/
def main (args : List String) : IO Unit := do
  let text ← match args with
    | [] => pure Report.sample
    | input :: _ => do pure (← IO.FS.readFile input).toList
  match Report.ofText text with
  | .error e => throw (IO.userError (String.ofList e.message))
  | .ok report =>
    IO.print (String.ofList report.output)
    if let output :: _ := args.drop 1 then
      match report.saved with
      | .error e => throw (IO.userError (String.ofList e.message))
      | .ok saved => IO.FS.writeFile output (String.ofList saved)
