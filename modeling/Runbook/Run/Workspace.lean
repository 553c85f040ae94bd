import Runbook.Run.Error
import Runbook.Reference

/-!
# The workspace

What a run has produced so far: the output of every step that ran, and a history with an entry for
each of them, the oldest first.  An output is written once.
-/

namespace Runbook.Run

/-- **What is kept of a step that ran.** -/
structure Entry where
  /-- The step. -/
  step : String
  /-- The steps that it depends on. -/
  dependencies : List String
  /-- What its tool was called with. -/
  input : Table Json
  /-- Its output. -/
  output : Json
  /-- Its guard, as it was evaluated. -/
  guard : Option String
  /-- Its prompt. -/
  prompt : String

namespace Entry

/-- The entry as JSON. -/
def toJson (e : Entry) : Json :=
  .object [("operation_name", .text e.step), ("dependency", .array (e.dependencies.map .text)),
    ("input", .object e.input), ("output", e.output), ("activate", .ofText? e.guard),
    ("prompt", .text e.prompt)]

/-- The entry that a JSON value describes. -/
def read? (d : Json.Draft) : Option Entry := do
  match ← Source.fields ["operation_name", "dependency", "input", "output", "activate", "prompt"] d
  with
  | [step, dependencies, input, output, guard, prompt] =>
    let step ← Source.required Source.text step
    let dependencies ← Source.required (Json.Draft.list? Source.text) dependencies
    let input ← Source.required (Source.table Json.Draft.any?) input
    let output ← Source.required Json.Draft.any? output
    let guard ← Source.orNothing Source.text guard
    let prompt ← Source.withDefault "" Source.text prompt
    return { step, dependencies, input, output, guard, prompt }
  | _ => none

end Entry

/-- A value that shows nothing: `null`, or a text, list or mapping without content. -/
def isEmptyValue : Json → Bool
  | .null => true
  | .text s => s.isEmpty
  | .array items => items.isEmpty
  | .object members => members.isEmpty
  | _ => false

/-- **The text of an output**: of a mapping a line for each member that has a text, of anything
else its text. -/
def render : Json → String
  | .object members =>
    let texts := (Table.values members).map Json.display
    String.join ((texts.filter fun s => !s.isEmpty).map (· ++ "\n"))
  | v => v.display

/-- **What a run has produced.** -/
structure Workspace where
  /-- The entries of the steps that ran, the oldest first. -/
  history : List Entry
  /-- The outputs, each under the name of its step. -/
  outputs : Bindings
  /-- The step that ran last. -/
  last : Option String

namespace Workspace

/-- The workspace before any step ran. -/
def empty : Workspace := ⟨[], [], none⟩

instance : Inhabited Workspace := ⟨empty⟩

/-- Adds an entry to the history. -/
def record (w : Workspace) (e : Entry) : Workspace :=
  { w with history := w.history ++ [e] }

/-- **Writes the output of a step**, which must not have one. -/
def bind (w : Workspace) (step : String) (output : Json) : Except Error Workspace :=
  if w.outputs.contains step then .error (.completedTwice step)
  else .ok { w with outputs := w.outputs.put step output }

/-- Notes the step that ran last. -/
def setLast (w : Workspace) (step : String) : Workspace :=
  { w with last := some step }

/-- The step has an entry. -/
def hasRun (w : Workspace) (step : String) : Bool :=
  w.history.any fun e => e.step == step

/-- The first value of a field among the mapping outputs of steps. -/
def fieldOf? (w : Workspace) (steps : List String) (field : String) : Option Json :=
  steps.findSome? fun step =>
    match w.outputs.get? step with
    | some (.object members) => Table.get? members field
    | _ => none

/-- The line of an output among others. -/
def line (binding : String × Json) : String :=
  s!"{binding.1}: {binding.2.display}\n"

/-- The lines of all outputs that show something, in order of writing. -/
def allLines (w : Workspace) : String :=
  String.join ((w.outputs.filter fun b => !isEmptyValue b.2).map line)

/-- **The text of the last output**; if it shows nothing and is no mapping, that of all outputs. -/
def lastResult (w : Workspace) : String :=
  match w.last.bind fun step => w.outputs.get? step with
  | none => w.allLines
  | some v =>
    if !isEmptyValue v then render v
    else
      match v with
      | .object _ => ""
      | _ => w.allLines

/-- The workspace as JSON. -/
def toJson (w : Workspace) : Json :=
  .object [("operation_history", .array (w.history.map Entry.toJson)),
    ("variable_space", .object w.outputs), ("last_operation", .ofText? w.last)]

end Workspace

end Runbook.Run
