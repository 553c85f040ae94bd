import Runbook.Digest
import Runbook.Log.File
import Runbook.Run.Trace

/-!
# The log of a run

The events that a run leaves behind: its start, then round by round the steps that were skipped and
those that completed, then how it ended.
-/

namespace Runbook.Log

/-- **What a run does not know of itself**: its name, how long things took, and what time it is. -/
structure Clock where
  /-- The name of the run. -/
  run : String
  /-- The seconds that a step took. -/
  stepSeconds : String → Binary64
  /-- The seconds that the run took. -/
  totalSeconds : Binary64
  /-- The time stamp of a line of the log, by its number. -/
  stamp : Nat → String

/-- The version that logs name. -/
def version : String := "0.1.0"

/-- The event of a step that a pass skipped. -/
def skipEvent (clock : Clock) (s : Run.Skip) : Event :=
  .stepSkipped clock.run s.step s.expression

/-- The event of a step that completed. -/
def completionEvent (clock : Clock) (graph : Plan.Graph) (c : Run.Completed) : Event :=
  let tool := ((graph.find? c.step).map Plan.Step.tool).getD ""
  .stepCompleted clock.run c.step tool (clock.stepSeconds c.step) (Digest.ofValue c.output)

/-- The events of a round: the steps that were skipped come before those that completed. -/
def roundEvents (clock : Clock) (graph : Plan.Graph) (r : Run.Round) : List Event :=
  r.pass.skipped.map (skipEvent clock) ++ r.completed.map (completionEvent clock graph)

/-- The event of the end of a run. -/
def closingEvent (clock : Clock) (t : Run.Trace) : Event :=
  match t.outcome with
  | .ok () =>
    .runCompleted clock.run t.state.executed.length t.state.skipped.size clock.totalSeconds
  | .error e => .runFailed clock.run e.message

/-- **The events of a run** of a plan in a mode. -/
def events (clock : Clock) (content : String) (mode : Run.Mode) (start : Run.State)
    (t : Run.Trace) : List Event :=
  .runStarted clock.run (Digest.ofText content) mode start.graph.size version ::
    t.rounds.flatMap (roundEvents clock start.graph) ++ [closingEvent clock t]

/-- Appends events to a log, numbered from `number` on; one that cannot be written is left out. -/
def appendAll (clock : Clock) (path : String) (number : Nat) (files : Files) :
    List Event → Files
  | [] => files
  | event :: rest =>
    let after :=
      match append files path ⟨clock.stamp number, event⟩ with
      | .ok after => after
      | .error _ => files
    appendAll clock path (number + 1) after rest

end Runbook.Log
