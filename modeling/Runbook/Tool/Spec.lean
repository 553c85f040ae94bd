import Runbook.Json.Source
import Runbook.Json.Printer

/-!
# Tool descriptions

What a planner and the checker know about a tool: its name, and which parameters go in and come
out.
-/

namespace Runbook.Tool

/-- **A parameter of a tool.** -/
structure Parameter where
  /-- The type, as a word. -/
  type : Option String
  /-- What the parameter is for. -/
  description : Option String
  /-- A call has to give it. -/
  required : Bool
deriving DecidableEq

namespace Parameter

/-- A parameter of which nothing is said. -/
def plain : Parameter := ⟨none, none, false⟩

/-- The parameter as JSON. -/
def toJson (p : Parameter) : Json :=
  .object [("type", .ofText? p.type), ("description", .ofText? p.description),
    ("required", .boolean p.required)]

/-- The parameter that a datum describes. -/
def read {σ : Type} {m : Type → Type} [Monad m] [MonadExcept Unit m] [Source σ m] (d : σ) :
    m Parameter := do
  match ← Source.fields ["type", "description", "required"] d with
  | [type, description, required] =>
    let type ← Source.orNothing Source.text type
    let description ← Source.orNothing Source.text description
    let required ← Source.withDefault false Source.flag required
    return { type, description, required }
  | _ => throw ()

end Parameter

/-- **What is known about a tool.** -/
structure Spec where
  /-- The name by which steps call it. -/
  name : String
  /-- What the tool does. -/
  description : String
  /-- The parameters of a call. -/
  inputs : Table Parameter
  /-- The fields of its output. -/
  outputs : Table Parameter

namespace Spec

/-- Parameters of which only the names are known. -/
def plainParameters (names : List String) : Table Parameter :=
  Table.ofEntries (names.map fun n => (n, Parameter.plain))

/-- A table of parameters as JSON. -/
def parametersJson (ps : Table Parameter) : Json :=
  .object (ps.mapValues Parameter.toJson)

/-- The description as JSON. -/
def toJson (s : Spec) : Json :=
  .object [("name", .text s.name), ("description", .text s.description),
    ("input_parameters", parametersJson s.inputs),
    ("output_parameters", parametersJson s.outputs)]

/-- The description that a datum gives. -/
def read {σ : Type} {m : Type → Type} [Monad m] [MonadExcept Unit m] [Source σ m] (d : σ) :
    m Spec := do
  match ← Source.fields ["name", "description", "input_parameters", "output_parameters"] d with
  | [name, description, inputs, outputs] =>
    let name ← Source.required Source.text name
    let description ← Source.withDefault "" Source.text description
    let inputs ← Source.withDefault [] (Source.table Parameter.read) inputs
    let outputs ← Source.withDefault [] (Source.table Parameter.read) outputs
    return { name, description, inputs, outputs }
  | _ => throw ()

end Spec

end Runbook.Tool
