import HtmlTemplate.Program.Run

/-!
# The program

Reads the files that the arguments name, and does what follows from them.
-/

open HtmlTemplate

/-- Reads a file, if there is one. -/
def readFile? (path : String) : IO (Option File) := do
  try
    let bytes ← IO.FS.readBinFile path
    return some (match String.fromUTF8? bytes with
      | some text => .text text
      | none => .binary)
  catch _ => return none

/-- Tells a report, and gives its exit status. -/
def tell (report : Report) : IO UInt32 := do
  (← IO.getStdout).putStr report.output
  (← IO.getStderr).putStr report.complaint
  return report.status.toUInt32

/-- Does what a run does in the end. -/
def perform : Action → IO UInt32
  | .print view => tell (printReport view)
  | .save path view => do
    let saved ← try
        IO.FS.writeFile path view
        pure true
      catch _ => pure false
    tell (if saved then saveReport else (Failure.unwritable path).report)

/-- The program. -/
def main (arguments : List String) : IO UInt32 := do
  match Arguments.parse arguments with
  | .error r => tell r.report
  | .ok a =>
    let files ← (inputs a).mapM fun path ↦ return (path, ← readFile? path)
    match plan (fun path ↦ (files.lookup path).join) a with
    | .error e => tell e.report
    | .ok action => perform action
