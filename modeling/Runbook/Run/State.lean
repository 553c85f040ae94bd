import Runbook.Run.Workspace

/-!
# The state of a run

Which steps are still to be done, handed out, done, and skipped, with the steps themselves and the
workspace.  Every change is one of three: a step is skipped, handed out, or completed.
-/

namespace Runbook.Run

/-- **A step that ran**: its output and the entry for the history. -/
structure Completed where
  /-- The step. -/
  step : String
  /-- Its output. -/
  output : Json
  /-- What is kept of it. -/
  entry : Entry

/-- **The state of a run.** -/
structure State where
  /-- The steps that are neither done nor skipped. -/
  remaining : NameSet
  /-- The steps that were handed out and are not completed. -/
  activated : NameSet
  /-- The steps that are done; a skipped step is done. -/
  done : NameSet
  /-- The steps that were skipped. -/
  skipped : NameSet
  /-- The steps. -/
  graph : Plan.Graph
  /-- What was produced. -/
  workspace : Workspace

namespace State

/-- The state before anything was done. -/
def start (g : Plan.Graph) : State where
  remaining := ⟨g.names, g.names_nodup⟩
  activated := ∅
  done := ∅
  skipped := ∅
  graph := g
  workspace := .empty

instance : Inhabited State := ⟨start .empty⟩

/-- **Skips a step**: it is done without having run. -/
def skip (s : State) (step : String) : State :=
  { s with
    remaining := s.remaining.erase step
    done := s.done.insert step
    skipped := s.skipped.insert step }

/-- **Hands a step out.** -/
def activate (s : State) (step : String) : State :=
  { s with activated := s.activated.insert step }

/-- **Completes a step**: its output is written, and the step is done.  A step that has an output
already changes nothing. -/
def complete (s : State) (c : Completed) : Except Error State :=
  match s.workspace.bind c.step c.output with
  | .error e => .error e
  | .ok w => .ok
    { s with
      remaining := s.remaining.erase c.step
      activated := s.activated.erase c.step
      done := s.done.insert c.step
      graph := s.graph.setOutput c.step c.output
      workspace := (w.record c.entry).setLast c.step }

/-- Nothing is left to be done. -/
def isFinished (s : State) : Bool :=
  s.remaining.isEmpty

/-- **The steps that ran**, in order of completion. -/
def executed (s : State) : List String :=
  s.done.toList.filter fun step => !s.skipped.contains step

/-- The outputs of the sinks that have one, in order of declaration. -/
def sinkOutputs (s : State) : List (String × Json) :=
  s.graph.sinks.filterMap fun step => (s.workspace.outputs.get? step).map fun v => (step, v)

/-- **The answer of a run**: the output of the step that was asked for, if it has one; else the
outputs of the sinks, if each has one, under their names if there are several; else the last
result. -/
def result (s : State) (resultStep : Option String) : String :=
  match resultStep.bind fun step => s.workspace.outputs.get? step with
  | some v => render v
  | none =>
    let outputs := s.sinkOutputs
    if outputs.length = s.graph.sinks.length then
      match outputs with
      | [] => s.workspace.lastResult
      | [(_, v)] => render v
      | _ => "\n".intercalate (outputs.map fun (step, v) => s!"{step}:\n{render v}")
    else s.workspace.lastResult

end State

end Runbook.Run
