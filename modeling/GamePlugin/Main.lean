import GamePlugin.Tool

/-!
# The program

Reads the file of a call, prints the report, and says by its exit code how it went: 1 for a failure,
2 for arguments that make no call.
-/

open GamePlugin

/-- Prints a report and gives the exit code for it. -/
def printReport (report : Tool.Report) : IO UInt32 := do
  report.output.forM fun line => IO.println line
  match report.failure with
  | none => return 0
  | some lines =>
    lines.forM fun line => IO.eprintln line
    return 1

/-- Answers a request, reading the file that it names. -/
def answerRequest (request : Tool.Request) : IO UInt32 := do
  match request with
  | .help _ => printReport (Tool.respond request .empty)
  | .run call =>
    match ← (IO.FS.readBinFile call.file).toBaseIO with
    | .ok image => printReport (Tool.respond request image)
    | .error e =>
      IO.eprintln s!"Error: Failed to open {call.file}\n\nCaused by:\n    {e}"
      return 1

/-- The command line entry. -/
def main (args : List String) : IO UInt32 := do
  match Tool.request? args with
  | some request => answerRequest request
  | none =>
    IO.eprintln "usage: [--edition EDITION] (info | stats | find | cell) FILE ..."
    return 2
