import Runbook.Log.Report
import Runbook.Plan.Check
import Runbook.Plan.Wave
import Runbook.Settings

/-!
# The commands

What the program does when it is called: write a first plan and its settings, check a plan, show
its waves, or run it.  A command works on a tree of files and leaves behind another, with what it
wrote to its two outputs; if it fails, it says why.
-/

namespace Runbook.CommandLine

/-- **A command.** -/
inductive Request
  /-- Writes a first plan and its settings into a directory. -/
  | init (directory : String)
  /-- Checks a plan against the tools of the settings. -/
  | validate (plan settings : String)
  /-- Shows the waves of a plan. -/
  | graph (plan : String)
  /-- Runs a plan with the tools of the settings. -/
  | run (plan settings : String) (sequential : Bool) (workers : Option Nat) (log : Option String)

/-- **What a command left behind.** -/
structure Outcome where
  /-- What it wrote to the first output. -/
  output : String
  /-- What it wrote to the second output. -/
  diagnostics : String
  /-- Why it failed, if it did. -/
  failure : Option String
  /-- The files after it. -/
  files : Files

/-- A command that failed and left the files as they are. -/
def failed (files : Files) (reason : String) : Outcome := ⟨"", "", some reason, files⟩

/-- A command that only wrote to the first output. -/
def wrote (files : Files) (output : String) : Outcome := ⟨output, "", none, files⟩

/-- The text with a line end after it, unless it has one. -/
def withLineEnd (s : String) : String :=
  if s.endsWith "\n" then s else s ++ "\n"

/-! ## First files -/

/-- The settings to start from. -/
def firstSettings : String :=
  "executor:\n" ++
  "  max_workers: 5\n" ++
  "  concurrent: true\n" ++
  "\n" ++
  "tools:\n" ++
  "  Echo:\n" ++
  "    description: \"echo a query back\"\n" ++
  "    input_parameters:\n" ++
  "      q: \x7b type: string \x7d\n" ++
  "    output_parameters:\n" ++
  "      output: \x7b type: string \x7d\n" ++
  "    command: 'printf \"\x7b\\\"output\\\": \\\"%s\\\"\x7d\" \"$ARG_Q\"'\n"

/-- The plan to start from. -/
def firstPlan : String :=
  "- name: greet\n" ++
  "  step: 1\n" ++
  "  toolname: Echo\n" ++
  "  input:\n" ++
  "    q: \"hello\"\n" ++
  "\n" ++
  "- name: shout\n" ++
  "  step: 2\n" ++
  "  toolname: Echo\n" ++
  "  input:\n" ++
  "    q: \"$\x7bgreet.output\x7d, world\"\n" ++
  "  dependency: [greet]\n" ++
  "  activate: \"'$\x7bgreet.output\x7d' != ''\"\n"

/-- The name of the first plan. -/
def planName : String := "plan.yaml"

/-- Writes texts to files, in order, up to the first that cannot be written. -/
def writeAll (files : Files) : List (String × String) → Files × Option String
  | [] => (files, none)
  | (path, text) :: rest =>
    match files.write path text with
    | .error fault => (files, some s!"cannot write {path}: {fault.message}")
    | .ok after => writeAll after rest

/-- **Writes a first plan and its settings**, which must not be there. -/
def init (files : Files) (directory : String) : Outcome :=
  let settingsPath := Files.join directory Settings.fileName
  let planPath := Files.join directory planName
  match [settingsPath, planPath].find? files.has with
  | some path => failed files s!"{path} already exists"
  | none =>
    match files.makeDirectories directory with
    | .error fault => failed files s!"cannot create {directory}: {fault.message}"
    | .ok made =>
      match writeAll made [(settingsPath, firstSettings), (planPath, firstPlan)] with
      | (after, some reason) => failed after reason
      | (after, none) =>
        wrote after
          (s!"Initialized sopflow project at {directory}\n" ++
            s!"  Created: {settingsPath}\n  Created: {planPath}\n")

/-! ## Checking and showing -/

/-- What is said of a plan that is no file. -/
def noPlan (plan : String) : String :=
  s!"plan file {plan} not found"

/-- **Checks a plan.** -/
def validate (files : Files) (plan settings : String) : Outcome :=
  if !files.isFile plan then failed files (noPlan plan)
  else
    match Settings.load files settings with
    | .error e => failed files e.message
    | .ok s =>
      match s.registry with
      | .error e => failed files s!"tool registry: {e.message}"
      | .ok registry =>
        let (valid, report) := Plan.check registry.toolbox files plan
        if valid then wrote files s!"OK: {plan} ({s.tools.length} tools registered)\n"
        else ⟨"", withLineEnd report, some s!"{plan} is not a valid plan", files⟩

/-- The line of a step among its wave. -/
def stepLine (step : Plan.Step) : String :=
  let guard := match step.guard with
    | some expression => s!"  [if {expression}]"
    | none => ""
  s!"    {step.name} ({step.tool}){guard}\n"

/-- The lines of a wave, with its number. -/
def waveLines (graph : Plan.Graph) (number : Nat) (wave : List String) : String :=
  s!"  wave {number}:\n" ++ String.join ((wave.filterMap graph.find?).map stepLine)

/-- The lines of waves, numbered from `number` on. -/
def allWaveLines (graph : Plan.Graph) (number : Nat) : List (List String) → String
  | [] => ""
  | wave :: rest => waveLines graph number wave ++ allWaveLines graph (number + 1) rest

/-- **Shows the waves of a plan.** -/
def graph (files : Files) (plan : String) : Outcome :=
  if !files.isFile plan then failed files (noPlan plan)
  else
    match (Plan.Document.load files plan).bind Plan.Graph.ofRecords with
    | .error e => failed files e.message
    | .ok g =>
      match g.waves with
      | .error e => failed files e.message
      | .ok waves =>
        wrote files
          (s!"{g.size} step(s) in {waves.length} wavefront(s)\n" ++ allWaveLines g 1 waves)

/-! ## Running -/

/-- The settings that a call changes: more or fewer workers, one step at a time. -/
def adjust (policy : Run.Policy) (sequential : Bool) (workers : Option Nat) : Run.Policy :=
  let policy := match workers with
    | some n => { policy with workers := n }
    | none => policy
  if sequential then { policy with concurrent := false } else policy

/-- The mode that settings ask for. -/
def modeOf (policy : Run.Policy) : Run.Mode :=
  if policy.concurrent then .concurrent else .sequential

/-- Runs a plan with a toolbox. -/
def runWith (clock : Log.Clock) (files : Files) (plan : String) (box : Toolbox)
    (policy : Run.Policy) (log : Option String) : Outcome :=
  match Run.prepare box files plan with
  | .error e => failed files e.message
  | .ok start =>
    let mode := modeOf policy
    let trace := Run.course box none .declared mode start
    let after := match log with
      | some path => Log.appendAll clock path 0 files (Log.events clock plan mode start trace)
      | none => files
    match trace.outcome with
    | .error e => failed after e.message
    | .ok () =>
      let text := trace.state.result policy.resultStep
      wrote after (if text.isEmpty then "" else withLineEnd text)

/-- **Runs a plan.** -/
def run (clock : Log.Clock) (files : Files) (plan settings : String) (sequential : Bool)
    (workers : Option Nat) (log : Option String) : Outcome :=
  if !files.isFile plan then failed files (noPlan plan)
  else
    match Settings.load files settings with
    | .error e => failed files e.message
    | .ok s =>
      if workers = some 0 then failed files "--workers must be at least 1"
      else
        match s.registry with
        | .error e => failed files s!"tool registry: {e.message}"
        | .ok registry =>
          runWith clock files plan registry.toolbox (adjust s.policy sequential workers) log

/-- **Does what a request asks for.** -/
def dispatch (clock : Log.Clock) (files : Files) : Request → Outcome
  | .init directory => init files directory
  | .validate plan settings => validate files plan settings
  | .graph plan => graph files plan
  | .run plan settings sequential workers log =>
    run clock files plan settings sequential workers log

end Runbook.CommandLine
