import Runbook.NameSet
import Runbook.Prompt
import Runbook.Text.Blank
import Runbook.Plan.Document
import Runbook.Json.Source

/-!
# Steps

A step as it is run: its tool and the input for it, the steps that have to come first, the guard
that decides whether it runs at all, and the prompt that goes with it.  `Step.ofRecord` says what
each field of a record means, and what it means if it is missing or empty.
-/

namespace Runbook.Plan

/-- **A step of a plan.** -/
structure Step where
  /-- What other steps call it. -/
  name : String
  /-- The number that the plan gives it, if any; it decides nothing. -/
  ordinal : Option Json
  /-- The tool that it calls. -/
  tool : String
  /-- What the tool is called with, before references are replaced. -/
  input : Table Json
  /-- The output, once there is one. -/
  output : Option Json
  /-- The steps that have to be done first. -/
  dependencies : NameSet
  /-- The expression that decides whether the step runs; a step without one always does. -/
  guard : Option String
  /-- The template of the prompt. -/
  prompt : String
  /-- What the plan says about it. -/
  description : Option String

namespace Step

/-- The text of a field; nothing if the field is missing. -/
def textField (r : Record) (field : String) : String :=
  match r.get? field with
  | some v => v.display
  | none => ""

/-- A field that is there and not `null`. -/
def field? (r : Record) (field : String) : Option Json :=
  match r.get? field with
  | some .null => none
  | v => v

/-- **The names that a dependency field gives**: of a list its items, of anything else the value
alone, without `null` and blank texts. -/
def dependencyNames (field : Option Json) : NameSet :=
  let items :=
    match field with
    | none => []
    | some .null => []
    | some (.array items) => items
    | some v => [v]
  let texts := (items.filter fun v => !v.isNull).map Json.display
  NameSet.ofList (texts.filter fun s => !Text.isBlankText s)

/-- The prompt that a field gives: a text that is not empty, else the standard one. -/
def promptOf : Option Json → String
  | some (.text s) => if s.isEmpty then Prompt.standard else s
  | _ => Prompt.standard

/-- The guard that a field gives: none for `null` and for a blank text. -/
def guardOf : Option Json → Option String
  | none => none
  | some .null => none
  | some (.text s) => if Text.isBlankText s then none else some s
  | some v => some v.display

/-- The description that a field gives: a text. -/
def descriptionOf : Option Json → Option String
  | some (.text s) => some s
  | _ => none

/-- The input that a field gives: a mapping, empty if there is none. -/
def inputOf (index : Nat) : Option Json → Except Error (Table Json)
  | none => .ok []
  | some .null => .ok []
  | some (.object members) => .ok members
  | some v => .error (.malformedStep index v)

/-- **The step that a record describes**; `index` is the place of the record in its list. -/
def ofRecord (index : Nat) (r : Record) : Except Error Step :=
  match inputOf index (r.get? "input") with
  | .error e => .error e
  | .ok input => .ok
    { name := textField r "name"
      ordinal := field? r "step"
      tool := textField r "toolname"
      input := input
      output := field? r "output"
      dependencies := dependencyNames (r.get? "dependency")
      guard := guardOf (r.get? "activate")
      prompt := promptOf (r.get? "prompt")
      description := descriptionOf (r.get? "description") }

/-- The text of the ordinal. -/
def label (s : Step) : String :=
  match s.ordinal with
  | some v => v.display
  | none => ""

/-- The prompt for an input. -/
def renderPrompt (s : Step) (input : Table Json) : Except Prompt.Error String :=
  Prompt.expand s.prompt s.name (Json.object input).compact

/-! ## As data -/

/-- The step as JSON. -/
def toJson (s : Step) : Json :=
  .object [("name", .text s.name), ("step", .ofOption s.ordinal), ("toolname", .text s.tool),
    ("input", .object s.input), ("output", .ofOption s.output),
    ("dependency", .array (s.dependencies.toList.map .text)), ("activate", .ofText? s.guard),
    ("prompt", .text s.prompt), ("description", .ofText? s.description)]

/-- The step that a JSON value describes field by field. -/
def read? (d : Json.Draft) : Option Step := do
  match ← Source.fields ["name", "step", "toolname", "input", "output", "dependency", "activate",
    "prompt", "description"] d with
  | [name, ordinal, tool, input, output, dependencies, guard, prompt, description] =>
    let name ← Source.required Source.text name
    let ordinal ← Source.orNothing Json.Draft.any? ordinal
    let tool ← Source.required Source.text tool
    let input ← Source.withDefault [] (Source.table Json.Draft.any?) input
    let output ← Source.orNothing Json.Draft.any? output
    let dependencies ← Source.withDefault [] (Json.Draft.list? Source.text) dependencies
    let guard ← Source.orNothing Source.text guard
    let prompt ← Source.required Source.text prompt
    let description ← Source.orNothing Source.text description
    return { name, ordinal, tool, input, output, dependencies := NameSet.ofList dependencies,
             guard, prompt, description }
  | _ => none

end Step

end Runbook.Plan
