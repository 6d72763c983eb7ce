import TypeGuard.CommandLine.Report

/-! # The command

Writes the report on the arguments and ends with its status.
-/

open TypeGuard

def main (arguments : List String) : IO UInt32 := do
  let report := CommandLine.run arguments
  (← IO.getStdout).putStr report.output
  (← IO.getStderr).putStr report.diagnostics
  return UInt32.ofNat report.status
