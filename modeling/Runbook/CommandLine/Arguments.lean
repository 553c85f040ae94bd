import Runbook.CommandLine

/-!
# Arguments of a call

The request that the words of a call make.  The first word names the command; options and the path
that the command works on may follow in any order.  An option that takes a value takes the word
after it.
-/

namespace Runbook.CommandLine

/-- What the words of a call gave, before it is known to suffice. -/
structure Arguments where
  /-- The words that are no options. -/
  paths : List String
  /-- The settings file. -/
  settings : String
  /-- One step at a time. -/
  sequential : Bool
  /-- The number of workers. -/
  workers : Option Nat
  /-- The log file. -/
  log : Option String

namespace Arguments

/-- The arguments of a call that gives none. -/
def none : Arguments := ⟨[], Settings.fileName, false, Option.none, Option.none⟩

/-- Reads the words after the name of a command. -/
def read? (a : Arguments) : List String → Option Arguments
  | [] => some a
  | "--sequential" :: rest => { a with sequential := true }.read? rest
  | "-c" :: path :: rest => { a with settings := path }.read? rest
  | "--config" :: path :: rest => { a with settings := path }.read? rest
  | "--log" :: path :: rest => { a with log := some path }.read? rest
  | "-w" :: count :: rest => count.toNat?.bind fun n => { a with workers := some n }.read? rest
  | "--workers" :: count :: rest =>
    count.toNat?.bind fun n => { a with workers := some n }.read? rest
  | word :: rest =>
    if word.startsWith "-" then Option.none else { a with paths := a.paths ++ [word] }.read? rest

end Arguments

/-- **The request that the words of a call make.** -/
def Request.ofArguments? : List String → Option Request
  | "init" :: rest =>
    (Arguments.none.read? rest).bind fun a =>
      match a.paths with
      | [] => some (.init ".")
      | [directory] => some (.init directory)
      | _ => none
  | "validate" :: rest =>
    (Arguments.none.read? rest).bind fun a =>
      match a.paths with
      | [plan] => some (.validate plan a.settings)
      | _ => none
  | "graph" :: rest =>
    (Arguments.none.read? rest).bind fun a =>
      match a.paths with
      | [plan] => some (.graph plan)
      | _ => none
  | "run" :: rest =>
    (Arguments.none.read? rest).bind fun a =>
      match a.paths with
      | [plan] => some (.run plan a.settings a.sequential a.workers a.log)
      | _ => none
  | _ => none

/-- How the program is called. -/
def usage : String :=
  "usage: sopflow init [DIRECTORY]\n" ++
  "       sopflow validate PLAN [-c SETTINGS]\n" ++
  "       sopflow graph PLAN\n" ++
  "       sopflow run PLAN [-c SETTINGS] [--sequential] [-w WORKERS] [--log LOG]\n"

/-- The paths that a request reads. -/
def Request.reads : Request → List String
  | .init directory =>
    [directory, Files.join directory Settings.fileName, Files.join directory planName]
  | .validate plan settings => [plan, settings]
  | .graph plan => [plan]
  | .run plan settings _ _ log => [plan, settings] ++ log.toList

/-- The paths that a request may write. -/
def Request.writes : Request → List String
  | .init directory => [Files.join directory Settings.fileName, Files.join directory planName]
  | .run _ _ _ _ log => log.toList
  | _ => []

end Runbook.CommandLine
