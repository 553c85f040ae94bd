import Runbook.Files
import Runbook.Text.Blank
import Runbook.Log.Event

/-!
# Log files

A log file has an event on each line, the oldest first.  Events are only ever appended; blank lines
count for nothing when the file is read.
-/

namespace Runbook.Log

/-- **Why a log cannot be written or read.** -/
inductive Error
  /-- The directory of the log cannot be made. -/
  | noDirectory (directory : String) (fault : Files.Fault)
  /-- The log cannot be opened. -/
  | notOpened (path : String) (fault : Files.Fault)
  /-- The log cannot be read on. -/
  | unreadable (fault : Files.Fault)
  /-- A line, counted from 1, is no event. -/
  | invalid (path : String) (line : Nat)

/-- The message of an error. -/
def Error.message : Error → String
  | noDirectory directory fault => s!"cannot create log dir {directory}: {fault.message}"
  | notOpened path fault => s!"cannot open run log {path}: {fault.message}"
  | unreadable fault => s!"read error: {fault.message}"
  | invalid path line => s!"{path}:{line}: invalid event: not an event"

/-- The text of a line, with its end. -/
def Line.written (l : Line) : String :=
  l.toJson.compact ++ "\n"

/-- **Appends a line to a log**, in a directory that is made if there is none. -/
def append (files : Files) (path : String) (l : Line) : Except Error Files :=
  let directory := (Files.parent? path).getD ""
  match files.makeDirectories directory with
  | .error fault => .error (.noDirectory directory fault)
  | .ok made =>
    match made.append path l.written with
    | .error fault => .error (.notOpened path fault)
    | .ok after => .ok after

/-- The lines of a log from a line number on. -/
def readLines (path : String) (number : Nat) : List (Option (List Char)) → Except Error (List Line)
  | [] => .ok []
  | none :: _ => .error (.unreadable .undecodable)
  | some cs :: rest =>
    if cs.all Text.isBlank then readLines path (number + 1) rest
    else
      match Json.decode? Line.read? (String.ofList cs) with
      | none => .error (.invalid path number)
      | some l =>
        match readLines path (number + 1) rest with
        | .error e => .error e
        | .ok ls => .ok (l :: ls)

/-- **The lines of a log**, the oldest first. -/
def read (files : Files) (path : String) : Except Error (List Line) :=
  match files.read path with
  | .error .isDirectory => .error (.unreadable .isDirectory)
  | .error fault => .error (.notOpened path fault)
  | .ok content => readLines path 1 content.lines

end Runbook.Log
