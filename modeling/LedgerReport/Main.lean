import Std.Time.Format
import LedgerReport.Command.Run
set_option autoImplicit false

namespace LedgerReport

def usage : List String := [
  "Report Definition Engine", "",
  "  evaluate REPORT DATA [--year YEAR] [--period PERIOD] [--compare-year YEAR]",
  "           [--compare-period PERIOD] [--flip-passiva] [--json]",
  "  validate REPORT",
  "  setup", "",
  "PERIOD is All, Q1-Q4, P1-P12, 1-12 or LTM."]

def filesOf (names : List String) : IO Files := do
  let mut files : Files := []
  for name in names do
    match ← (IO.FS.readFile name).toBaseIO with
    | .ok text => files := files ++ [(name, text)]
    | .error _ => pure ()
  return files

def environment : IO Environment := do
  let mut env : Environment := []
  for name in Settings.variableNames do
    match ← IO.getEnv name with
    | some value => env := env ++ [(name, value)]
    | none => pure ()
  return env

def timeText : IO String := do
  let now ← Std.Time.Timestamp.now
  return (Std.Time.PlainDateTime.ofWallTime (now.toWallTime .zero)).toLeanDateTimeString

def report (o : Outcome) : IO UInt32 := do
  let out ← IO.getStdout
  let err ← IO.getStderr
  for w in o.warnings do err.putStrLn ("WARNING - " ++ w)
  match o.error with
  | some e => err.putStrLn ("ERROR - Error: " ++ e.message)
  | none => pure ()
  for l in o.lines.getD usage do out.putStrLn l
  return o.exit.toUInt32

end LedgerReport

open LedgerReport in
def main (arguments : List String) : IO UInt32 := do
  let names := match Command.ofArguments arguments with
    | .ok c => c.fileNames
    | .error _ => []
  let files ← filesOf (environmentFile :: names)
  report (Command.runArguments (← environment) files (← timeText) arguments)
