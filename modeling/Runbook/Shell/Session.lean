import Runbook.Table
import Runbook.Text.Blank
import Runbook.Text.Decoded
import Runbook.Shell.Command
import Runbook.Shell.Format

/-!
# A script while it runs

The state that the commands of a script pass on, and the fields that its words stand for.  What is
written goes to numbered channels: the two outputs of the script, and one more for every command
whose output something else waits for.
-/

namespace Runbook.Shell

/-- How a script ended. -/
inductive Ending
  /-- It ended by itself, with this code. -/
  | exited (code : Nat)
  /-- A signal ended it. -/
  | killed
deriving DecidableEq

/-- Where bytes go: a channel, or nowhere. -/
abbrev Sink := Option Nat

/-- Where the two outputs of a command go. -/
structure Sinks where
  output : Sink
  diagnostics : Sink

/-- The two outputs of a script. -/
def Sinks.ofScript : Sinks := ⟨some 0, some 1⟩

/-- **A script while it runs.** -/
structure Session where
  /-- The values of the variables. -/
  values : Table String
  /-- The code of the last command. -/
  status : Nat
  /-- What was written to each channel. -/
  channels : List (List UInt8)
  /-- What can be read. -/
  input : List UInt8
  /-- A command that fails ends the script. -/
  stopsOnFailure : Bool
  /-- How the script ended, once it has. -/
  ending : Option Ending

namespace Session

/-- A script that has not begun. -/
def start (values : Table String) : Session :=
  ⟨values, 0, [[], []], [], false, none⟩

/-- Writes bytes to a sink. -/
def write (s : Session) (sink : Sink) (bytes : List UInt8) : Session :=
  match sink with
  | none => s
  | some k => { s with channels := s.channels.modify k (· ++ bytes) }

/-- What was written to a channel. -/
def written (s : Session) (channel : Nat) : List UInt8 :=
  s.channels[channel]?.getD []

/-- The session after a part that ran on a copy of it: only its code and what it wrote stay, and a
signal ends both. -/
def afterCopy (s copy : Session) : Session :=
  { s with
    channels := copy.channels
    status := match copy.ending with
      | some (.exited code) => code
      | _ => copy.status
    ending := if copy.ending = some .killed then some .killed else s.ending }

/-- Runs a part on a copy, and collects what it writes to a channel of its own. -/
def collect (s : Session) (run : Sink → Session → Session) : List UInt8 × Session :=
  let channel := s.channels.length
  let copy := run (some channel) { s with channels := s.channels ++ [[]] }
  (copy.written channel,
    s.afterCopy { copy with channels := copy.channels.take channel })

/-- Ends the script after a command that failed, if it was asked to and nothing tests the code. -/
def afterFailure (s : Session) (tested : Bool) : Session :=
  if s.stopsOnFailure && !tested && s.status != 0 && s.ending.isNone then
    { s with ending := some (.exited s.status) }
  else s

/-- The process id of the shell, as scripts see it. -/
def processId : String := "1"

/-- The value of a variable or special parameter. -/
def value (s : Session) (name : String) : List Char :=
  match name with
  | "?" => (toString s.status).toList
  | "$" => processId.toList
  | "#" => ['0']
  | "0" => "bash".toList
  | _ =>
    match name.splitOn ":-" with
    | first :: rest@(_ :: _) =>
      let own := (s.values.get? first).getD ""
      if own.isEmpty then (":-".intercalate rest).toList else own.toList
    | _ => ((s.values.get? name).getD "").toList

/-! ## Words -/

/-- How a script inside a word is run, on a copy of the session. -/
abbrev Inner := Sinks → List Char → Session → Session

/-- A word that is being expanded. -/
structure Expansion where
  session : Session
  /-- The fields that are finished. -/
  done : List (List Char)
  /-- The field that is open. -/
  current : Option (List Char)
  /-- A script inside the word was run. -/
  substituted : Bool

namespace Expansion

/-- Adds characters to the open field. -/
def extend (e : Expansion) (cs : List Char) : Expansion :=
  { e with current := some (e.current.getD [] ++ cs) }

/-- Ends the open field, if there is one. -/
def close (e : Expansion) : Expansion :=
  { e with done := e.done ++ e.current.toList, current := none }

/-- Adds an unquoted value, which blanks split into fields. -/
def split (e : Expansion) (cs : List Char) : Expansion :=
  cs.foldl
    (fun e c => if c == ' ' || c == '\t' || c == '\n' then e.close else e.extend [c]) e

/-- Adds a value. -/
def add (e : Expansion) (cs : List Char) (quoted : Bool) : Expansion :=
  if quoted then e.extend cs else e.split cs

/-- Adds a piece. -/
def piece (inner : Inner) (diagnostics : Sink) (e : Expansion) (p : Piece) : Expansion :=
  match p with
  | .text cs _ => e.extend cs
  | .variable name quoted => e.add (e.session.value name) quoted
  | .output script quoted =>
    let (bytes, s) := e.session.collect fun sink copy => inner ⟨sink, diagnostics⟩ script copy
    let value := Text.dropEndWhile (· == '\n') (Text.Decoded.ofBytes bytes).toList
    { e with session := s, substituted := true }.add value quoted

/-- A piece whose value is not split. -/
def unsplit : Piece → Piece
  | .text cs _ => .text cs true
  | .variable name _ => .variable name true
  | .output script _ => .output script true

end Expansion

/-- **The fields that a word stands for**: none for an unquoted variable without value. -/
def fields (inner : Inner) (diagnostics : Sink) (s : Session) (w : Word) :
    List String × Session × Bool :=
  if w = [.text [] true, .variable "@" true] then ([], s, false)
  else
    let e := (w.foldl (Expansion.piece inner diagnostics) ⟨s, [], none, false⟩).close
    (e.done.map String.ofList, e.session, e.substituted)

/-- The fields of words, one after the other. -/
def allFields (inner : Inner) (diagnostics : Sink) (s : Session) (ws : List Word) :
    List String × Session × Bool :=
  ws.foldl
    (fun (done, s, substituted) w =>
      let (more, s, again) := s.fields inner diagnostics w
      (done ++ more, s, substituted || again))
    ([], s, false)

/-- The text of a word as a whole. -/
def whole (inner : Inner) (diagnostics : Sink) (s : Session) (w : Word) :
    String × Session × Bool :=
  let (fs, s, substituted) := s.fields inner diagnostics (w.map Expansion.unsplit)
  (String.join fs, s, substituted)

end Session

end Runbook.Shell
