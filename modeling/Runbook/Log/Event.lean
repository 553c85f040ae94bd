import Runbook.Json.Printer
import Runbook.Run.Policy

/-!
# Events of a run

What a log says of a run: its start, each step that was completed or skipped, and its end.  An
event is written as a JSON object whose member `event` names its kind.
-/

namespace Runbook.Log

/-- **An event of a run.** -/
inductive Event
  | runStarted (run planHash : String) (mode : Run.Mode) (steps : Nat) (version : String)
  | stepCompleted (run step tool : String) (seconds : Binary64) (outputHash : String)
  | stepSkipped (run step expression : String)
  | runCompleted (run : String) (executed skipped : Nat) (seconds : Binary64)
  | runFailed (run error : String)

namespace Event

/-- A binary64 number as a value. -/
def realJson (x : Binary64) : Json := .number (.real x)

/-- The members of an event, its kind first. -/
def members : Event → Table Json
  | runStarted run planHash mode steps version =>
    [("event", .text "run_started"), ("run_id", .text run), ("plan_hash", .text planHash),
      ("mode", mode.toJson), ("steps", .ofNat steps), ("sopflow_version", .text version)]
  | stepCompleted run step tool seconds outputHash =>
    [("event", .text "step_completed"), ("run_id", .text run), ("step", .text step),
      ("tool", .text tool), ("duration_seconds", realJson seconds),
      ("output_hash", .text outputHash)]
  | stepSkipped run step expression =>
    [("event", .text "step_skipped"), ("run_id", .text run), ("step", .text step),
      ("activate", .text expression)]
  | runCompleted run executed skipped seconds =>
    [("event", .text "run_completed"), ("run_id", .text run), ("steps_executed", .ofNat executed),
      ("steps_skipped", .ofNat skipped), ("total_seconds", realJson seconds)]
  | runFailed run error =>
    [("event", .text "run_failed"), ("run_id", .text run), ("error", .text error)]

/-- The run that an event is of. -/
def run : Event → String
  | runStarted run _ _ _ _ => run
  | stepCompleted run _ _ _ _ => run
  | stepSkipped run _ _ => run
  | runCompleted run _ _ _ => run
  | runFailed run _ => run

/-- The mode that a field of an event names: as elsewhere, or with an empty object as the value of
its word. -/
def mode? : Json → Option Run.Mode
  | .object [(s, .object [])] => Run.Mode.ofWord? s
  | v => Run.Mode.read? v

/-- The event of a kind with the fields that a datum gives. -/
def ofKind? (kind : String) (d : Json) : Option Event :=
  match kind with
  | "run_started" =>
    match Source.fields ["run_id", "plan_hash", "mode", "steps", "sopflow_version"] d with
    | some [run, planHash, mode, steps, version] => do
      let run ← Source.required Source.text run
      let planHash ← Source.required Source.text planHash
      let mode ← Source.required mode? mode
      let steps ← Source.required Source.natural steps
      let version ← Source.required Source.text version
      return runStarted run planHash mode steps version
    | _ => none
  | "step_completed" =>
    match Source.fields ["run_id", "step", "tool", "duration_seconds", "output_hash"] d with
    | some [run, step, tool, seconds, outputHash] => do
      let run ← Source.required Source.text run
      let step ← Source.required Source.text step
      let tool ← Source.required Source.text tool
      let seconds ← Source.required Json.real? seconds
      let outputHash ← Source.required Source.text outputHash
      return stepCompleted run step tool seconds outputHash
    | _ => none
  | "step_skipped" =>
    match Source.fields ["run_id", "step", "activate"] d with
    | some [run, step, expression] => do
      let run ← Source.required Source.text run
      let step ← Source.required Source.text step
      let expression ← Source.required Source.text expression
      return stepSkipped run step expression
    | _ => none
  | "run_completed" =>
    match Source.fields ["run_id", "steps_executed", "steps_skipped", "total_seconds"] d with
    | some [run, executed, skipped, seconds] => do
      let run ← Source.required Source.text run
      let executed ← Source.required Source.natural executed
      let skipped ← Source.required Source.natural skipped
      let seconds ← Source.required Json.real? seconds
      return runCompleted run executed skipped seconds
    | _ => none
  | "run_failed" =>
    match Source.fields ["run_id", "error"] d with
    | some [run, error] => do
      let run ← Source.required Source.text run
      let error ← Source.required Source.text error
      return runFailed run error
    | _ => none
  | _ => none

/-- The event that the members of an object describe, whose kind `kindOf?` reads. -/
def ofMembers? (kindOf? : Json → Option String) (members : List (String × Json)) :
    Option Event :=
  match Source.only? members "event" with
  | some (some v) =>
    (kindOf? v).bind fun kind => ofKind? kind (.object (members.filter fun m => m.1 != "event"))
  | _ => none

/-- **The event that a JSON value describes**: an object, or a list of the kind and the fields. -/
def read? : Json → Option Event
  | .object members => ofMembers? Json.text? members
  | .array (.text kind :: rest) => ofKind? kind (.array rest)
  | _ => none

end Event

/-- **A line of a log**: an event and when it was written. -/
structure Line where
  /-- The time stamp. -/
  time : String
  /-- The event. -/
  event : Event

namespace Line

/-- The kinds of events, which a line may name by their places. -/
def kinds : List String :=
  ["run_started", "step_completed", "step_skipped", "run_completed", "run_failed"]

/-- The kind that a line names: by its word or by its place. -/
def kind? : Json → Option String
  | .text kind => some kind
  | v => (Json.natural? v).bind fun k => kinds[k]?

/-- The line as JSON. -/
def toJson (l : Line) : Json :=
  .object (("ts", .text l.time) :: l.event.members)

/-- The line that a JSON value describes. -/
def read? : Json → Option Line
  | .object members =>
    match Source.only? members "ts" with
    | some (some (.text time)) =>
      (Event.ofMembers? kind? (members.filter fun m => m.1 != "ts")).map fun event => ⟨time, event⟩
    | _ => none
  | _ => none

end Line

end Runbook.Log
