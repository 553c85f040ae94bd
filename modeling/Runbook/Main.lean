import Std.Time.DateTime.Timestamp
import Runbook.Calendar
import Runbook.CommandLine.Arguments

/-!
# The program

Reads the files that a request names, does what it asks for, and writes back the files that it
changed.
-/

namespace Runbook.Program

open CommandLine

/-- What a path names. -/
def observe (path : String) : IO (Option Files.Entry) := do
  try
    let bytes ← IO.FS.readBinFile path
    match String.fromUTF8? bytes with
    | some text => return some (.file (.text text))
    | none => return some (.file (.bytes bytes.toList))
  catch _ =>
    try
      discard (IO.FS.realPath path)
      return some .directory
    catch _ => return none

/-- The files that a request reads. -/
def collect (request : Request) : IO Files := do
  let mut entries := []
  for path in request.reads do
    match ← observe path with
    | some entry => entries := entries ++ [(path, entry)]
    | none => pure ()
  return Files.ofList entries

/-- Writes back a file that a request changed. -/
def store (before after : Files) (path : String) : IO Unit := do
  match before.readText path, after.readText path with
  | .ok old, .ok new => if old != new then IO.FS.writeFile path new
  | _, .ok new =>
    match Files.parent? path with
    | none => pure ()
    | some "" => pure ()
    | some directory => IO.FS.createDirAll directory
    IO.FS.writeFile path new
  | _, .error _ => pure ()

/-- The name and the time of this run. -/
def clock : IO Log.Clock := do
  let now ← Std.Time.Timestamp.now
  let milliseconds := now.toMillisecondsSinceUnixEpoch.val.toNat
  return {
    run := s!"r-{milliseconds}"
    stepSeconds := fun _ => .zero
    totalSeconds := .zero
    stamp := fun _ => Calendar.stamp milliseconds }

end Runbook.Program

open Runbook Runbook.Program Runbook.CommandLine in
/-- Runs the program. -/
def main (arguments : List String) : IO UInt32 := do
  match Request.ofArguments? arguments with
  | none =>
    IO.eprint usage
    return 2
  | some request =>
    let before ← collect request
    let outcome := dispatch (← clock) before request
    for path in request.writes do
      store before outcome.files path
    IO.print outcome.output
    IO.eprint outcome.diagnostics
    match outcome.failure with
    | none => return 0
    | some reason =>
      IO.eprintln s!"error: {reason}"
      return 1
