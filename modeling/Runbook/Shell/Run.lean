import Runbook.Shell.Builtin

/-!
# Running a script

A script runs portion by portion, and what it has not read yet is the input of its commands.  A
command inside a pipe, parentheses or a word runs on a copy of the session.  A script has an exit
code, or was killed, and what it wrote to its two outputs.
-/

namespace Runbook.Shell

open Session (Inner)

/-- The name of a variable is well formed. -/
def isName (cs : List Char) : Bool :=
  match cs with
  | [] => false
  | c :: rest => (c.isAlpha || c == '_') && rest.all fun c => c.isAlphanum || c == '_'

/-- The variable that a word assigns, and the word for its value. -/
def assignment? (w : Word) : Option (String × Word) :=
  match w with
  | .text cs false :: rest =>
    let name := cs.takeWhile (· != '=')
    if name.length < cs.length && isName name then
      some (String.ofList name, .text (cs.drop (name.length + 1)) false :: rest)
    else none
  | _ => none

namespace Session

/-- Applies a redirection. -/
def redirect (inner : Inner) (sinks : Sinks) (s : Session) (r : Redirection) : Sinks × Session :=
  let (target, s, _) := s.whole inner sinks.diagnostics r.target
  let sink := match target with
    | "1" => if r.duplicate then sinks.output else none
    | "2" => if r.duplicate then sinks.diagnostics else none
    | "/dev/stdout" => sinks.output
    | "/dev/stderr" => sinks.diagnostics
    | _ => none
  let sinks :=
    if r.descriptor = 2 then { sinks with diagnostics := sink }
    else if r.descriptor = 1 then { sinks with output := sink }
    else sinks
  (sinks, s)

/-- Applies redirections, the first one first. -/
def redirectAll (inner : Inner) (sinks : Sinks) (s : Session) (rs : List Redirection) :
    Sinks × Session :=
  rs.foldl (fun (sinks, s) r => s.redirect inner sinks r) (sinks, s)

/-- Sets a variable to what a word stands for. -/
def assign (inner : Inner) (diagnostics : Sink) (s : Session) (name : String) (w : Word) :
    Session × Bool :=
  let (value, s, substituted) := s.whole inner diagnostics w
  (s.set name value, substituted)

/-- Runs a simple command. -/
def simple (inner : Inner) (sinks : Sinks) (s : Session) (words : List Word)
    (redirections : List Redirection) (line : Nat) : Session :=
  let assignments := (words.map assignment?).takeWhile Option.isSome |>.filterMap id
  let (fs, s, substituted) := s.allFields inner sinks.diagnostics (words.drop assignments.length)
  let (sinks, s) := s.redirectAll inner sinks redirections
  match fs with
  | [] =>
    let (s, substituted) := assignments.foldl
      (fun (s, substituted) (name, w) =>
        let (s, again) := s.assign inner sinks.diagnostics name w
        (s, substituted || again))
      (s, substituted)
    if substituted then s else { s with status := 0 }
  | name :: arguments =>
    let e := s.perform line name arguments
    ({ e.session with status := e.status }.write sinks.output e.output).write
      sinks.diagnostics e.diagnostics

end Session

/-- **Runs a command.**  Where its code is tested, a failure does not end the script. -/
def Command.run (inner : Inner) : Command → Bool → Sinks → Session → Session
  | .nothing, _, _, s => { s with status := 0 }
  | .simple words redirections line, tested, sinks, s =>
    (s.simple inner sinks words redirections line).afterFailure tested
  | .not c, _, sinks, s =>
    let after := c.run inner true sinks s
    { after with status := if after.status = 0 then 1 else 0 }
  | .pipe left right, tested, sinks, s =>
    let (bytes, between) := s.collect fun sink copy =>
      left.run inner tested { sinks with output := sink } copy
    let right := right.run inner tested sinks { between with input := bytes }
    (between.afterCopy right).afterFailure tested
  | .and left right, tested, sinks, s =>
    let after := left.run inner true sinks s
    if after.ending.isNone && after.status = 0 then right.run inner tested sinks after else after
  | .or left right, tested, sinks, s =>
    let after := left.run inner true sinks s
    if after.ending.isNone && after.status ≠ 0 then right.run inner tested sinks after else after
  | .seq left right, tested, sinks, s =>
    let after := left.run inner tested sinks s
    if after.ending.isNone then right.run inner tested sinks after else after
  | .branch test yes no, tested, sinks, s =>
    let after := test.run inner true sinks s
    if after.ending.isSome then after
    else if after.status = 0 then yes.run inner tested sinks after
    else no.run inner tested sinks after
  | .each name words body, tested, sinks, s =>
    let (fs, s, _) := s.allFields inner sinks.diagnostics words
    fs.foldl
      (fun s f => if s.ending.isNone then body.run inner tested sinks (s.set name f) else s)
      { s with status := 0 }
  | .group c redirections, tested, sinks, s =>
    let (sinks, s) := s.redirectAll inner sinks redirections
    c.run inner tested sinks s
  | .subshell c redirections, tested, sinks, s =>
    let (sinks, s) := s.redirectAll inner sinks redirections
    (s.afterCopy (c.run inner tested sinks s)).afterFailure tested

/-- The lines of a script from a place on. -/
def remainder (script : List Char) (line : Option Nat) : List UInt8 :=
  match line with
  | none => []
  | some k => Format.encode (dropLines k script)
where
  dropLines : Nat → List Char → List Char
    | 0, cs => cs
    | _, [] => []
    | k + 1, c :: rest => if c = '\n' then dropLines k rest else dropLines (k + 1) rest

/-- The message of a fault. -/
def Fault.message (script : List Char) : Fault → String
  | .unexpected text line =>
    let culprit := (script.splitOn '\n')[line - 1]?.getD []
    s!"bash: line {line}: syntax error near unexpected token \x60{text}'\n" ++
      s!"bash: line {line}: \x60{String.ofList culprit}'\n"
  | .unexpectedEnd =>
    let lines := (script.splitOn '\n').length
    let last := if script.getLast? = some '\n' then lines else lines + 1
    s!"bash: line {last}: syntax error: unexpected end of file\n"
  | .unclosed quote line =>
    s!"bash: line {line}: unexpected EOF while looking for matching \x60{quote}'\n"

namespace Session

/-- **Runs portions of a script** until it ends, or until a command has read the rest of it. -/
def runPortions (inner : Inner) (sinks : Sinks) (script : List Char) (s : Session) :
    List (Except Fault Portion) → Session
  | [] => s
  | .error fault :: _ =>
    { s.write sinks.diagnostics (Format.encode (fault.message script).toList) with
      ending := some (.exited 2) }
  | .ok p :: rest =>
    let input := remainder script p.line
    let after := p.command.run inner false sinks { s with input }
    if after.ending.isSome || (after.input.isEmpty && !input.isEmpty) then after
    else after.runPortions inner sinks script rest

/-- Runs a script inside a word; `depth` bounds how deep such scripts are nested. -/
def runInner (depth : Nat) (sinks : Sinks) (script : List Char) (s : Session) : Session :=
  match depth with
  | 0 => s
  | depth + 1 =>
    s.runPortions (fun sinks script s => runInner depth sinks script s) sinks script
      (portions script)

end Session

/-- **How a script ended, and what it wrote.** -/
structure Outcome where
  /-- The exit code, `-1` if a signal ended the script. -/
  code : Int
  /-- The text of the first output. -/
  output : String
  /-- The text of the second output. -/
  diagnostics : String
deriving DecidableEq

/-- A script that has not begun, with variables: a later one hides an earlier one of its name. -/
def Session.ofEnvironment (environment : List (String × String)) : Session :=
  .start (Table.ofEntries environment)

/-- **Runs a script** with variables. -/
def run (script : String) (environment : List (String × String)) : Outcome :=
  let cs := script.toList
  let s := (Session.ofEnvironment environment).runInner (cs.length + 1) Sinks.ofScript cs
  { code := match s.ending with
      | none => s.status
      | some (.exited code) => code
      | some .killed => -1
    output := Text.Decoded.ofBytes (s.written 0)
    diagnostics := Text.Decoded.ofBytes (s.written 1) }

end Runbook.Shell
