import DdlGraph.Cli.Run
import Std.Time.Zoned

/-!
# The program

Runs the command that the arguments ask for, on the files and the clock of the system.
-/

namespace DdlGraph

/-- A number in at least `width` digits. -/
def digits (width n : Nat) : String :=
  let s := toString n
  .ofList (List.replicate (width - s.length) '0') ++ s

/-- A time of the calendar in the form `2024-01-01T00:00:00Z`. -/
def timeText (year month day hour minute second : Nat) : String :=
  digits 4 year ++ "-" ++ digits 2 month ++ "-" ++ digits 2 day ++ "T" ++ digits 2 hour ++ ":" ++
    digits 2 minute ++ ":" ++ digits 2 second ++ "Z"

/-- The present time in UTC. -/
def currentTime : IO String := do
  let now ← Std.Time.Timestamp.now
  let t := Std.Time.DateTime.ofTimestamp now Std.Time.TimeZone.ZoneRules.UTC
  return timeText t.year.toInt.toNat t.month.toNat t.day.toNat t.hour.toNat t.minute.toNat
    t.second.toNat

/-- What the system says about a failed access to a file. -/
def accessFailure : IO.Error → String
  | .noFileOrDirectory _ code details | .permissionDenied _ code details
  | .inappropriateType _ code details =>
    details ++ " (os error " ++ toString code ++ ")"
  | e => toString e

def systemHost : Cli.Host IO where
  read path := do
    try return .ok (← IO.FS.readFile path)
    catch e => return .error (accessFailure e)
  write path text := do
    try
      IO.FS.writeFile path text
      return .ok ()
    catch e => return .error (accessFailure e)
  now := currentTime

end DdlGraph

def main (args : List String) : IO UInt32 := do
  let output ← DdlGraph.Cli.run DdlGraph.systemHost args
  IO.print output.stdout
  IO.eprint output.stderr
  return output.exit.toUInt32
