import Runbook.Files
import Runbook.Text.Blank
import Runbook.Yaml.Source
import Runbook.Run.Policy
import Runbook.Tool.Command
import Runbook.Tool.Registry

/-!
# Settings

The settings file: how plans are run, and the tools that are declared, each with the script that it
runs.  A blank text is the standard settings.  `Settings.complaints` says what is wrong with
settings that could be read.
-/

namespace Runbook

/-- **A tool as it is declared.** -/
structure Declaration where
  /-- What the tool does. -/
  description : String
  /-- The parameters of a call. -/
  inputs : Table Tool.Parameter
  /-- The fields of its output. -/
  outputs : Table Tool.Parameter
  /-- The script that a call runs. -/
  command : Option String

namespace Declaration

/-- The declaration as JSON. -/
def toJson (d : Declaration) : Json :=
  .object [("description", .text d.description),
    ("input_parameters", Tool.Spec.parametersJson d.inputs),
    ("output_parameters", Tool.Spec.parametersJson d.outputs), ("command", .ofText? d.command)]

/-- The declaration that a datum gives. -/
def read {σ : Type} {m : Type → Type} [Monad m] [MonadExcept Unit m] [Source σ m] (d : σ) :
    m Declaration := do
  match ← Source.fields ["description", "input_parameters", "output_parameters", "command"] d with
  | [description, inputs, outputs, command] =>
    let description ← Source.withDefault "" Source.text description
    let inputs ← Source.withDefault [] (Source.table Tool.Parameter.read) inputs
    let outputs ← Source.withDefault [] (Source.table Tool.Parameter.read) outputs
    let command ← Source.orNothing Source.text command
    return { description, inputs, outputs, command }
  | _ => throw ()

/-- The description of the tool that is declared under a name. -/
def spec (name : String) (d : Declaration) : Tool.Spec :=
  ⟨name, d.description, d.inputs, d.outputs⟩

/-- What is wrong with the declaration of a name. -/
def complaints (name : String) (d : Declaration) : List String :=
  let blankNames (kind : String) (parameters : Table Tool.Parameter) : List String :=
    (parameters.keys.filter Text.isBlankText).map fun _ =>
      s!"tool '{name}' has a blank {kind} parameter name"
  (if Text.isBlankText name then ["tool name must not be blank"] else []) ++
    blankNames "input" d.inputs ++ blankNames "output" d.outputs ++
    (if d.command.any Text.isBlankText then [s!"tool '{name}' has a blank command"] else [])

end Declaration

/-- **The settings.** -/
structure Settings where
  /-- How plans are run. -/
  policy : Run.Policy
  /-- The declared tools. -/
  tools : Table Declaration

namespace Settings

/-- The name of the settings file, if none is given. -/
def fileName : String := "sopflow.yaml"

/-- The settings that nothing was said about. -/
def standard : Settings := ⟨.standard, []⟩

instance : Inhabited Settings := ⟨standard⟩

/-- The settings as JSON. -/
def toJson (s : Settings) : Json :=
  .object [("executor", s.policy.toJson), ("tools", .object (s.tools.mapValues Declaration.toJson))]

/-- The settings that a datum gives. -/
def read {σ : Type} {m : Type → Type} [Monad m] [MonadExcept Unit m] [Source σ m] (d : σ) :
    m Settings := do
  match ← Source.fields ["executor", "tools"] d with
  | [policy, tools] =>
    let policy ← Source.withDefault .standard Run.Policy.read policy
    let tools ← Source.withDefault [] (Source.table Declaration.read) tools
    return { policy, tools }
  | _ => throw ()

/-- **The settings of a text**, `none` if it spells none. -/
def ofText? (s : String) : Option Settings :=
  if Text.isBlankText s then some standard else Yaml.decode? read s

/-- **What is wrong with settings.** -/
def complaints (s : Settings) : List String :=
  (if s.policy.workers = 0 then ["executor.max_workers must be at least 1"] else []) ++
    (if s.policy.resultStep.any Text.isBlankText then ["executor.result_node must not be blank"]
      else []) ++
    s.tools.flatMap fun (name, d) => d.complaints name

/-- **Why settings cannot be used.** -/
inductive Error
  /-- The file cannot be read. -/
  | unreadable (path : String) (fault : Files.Fault)
  /-- The text spells no settings. -/
  | malformed
  /-- The settings make no sense. -/
  | faulty (path : String) (complaints : List String)

/-- The message of an error. -/
def Error.message : Error → String
  | unreadable path fault => s!"failed to read {path}: {fault.message}"
  | malformed => "YAML parse error: not settings"
  | faulty path complaints =>
    s!"{path} has {complaints.length} error(s):\n" ++
      "\n".intercalate (complaints.map ("  - " ++ ·))

/-- **The settings of a file.** -/
def load (files : Files) (path : String) : Except Error Settings :=
  match files.readText path with
  | .error fault => .error (.unreadable path fault)
  | .ok text =>
    match ofText? text with
    | none => .error .malformed
    | some s => if s.complaints.isEmpty then .ok s else .error (.faulty path s.complaints)

/-- The tools that a table of declarations gives, each with its description. -/
def declared (tools : Table Declaration) : List (Tool.Spec × Tool) :=
  tools.map fun (name, d) => (d.spec name, Tool.Command.tool name d.command)

/-- **The registry of the declared tools**, in order of declaration. -/
def registry (s : Settings) : Except Tool.Error Tool.Registry :=
  Tool.Registry.empty.registerAll (declared s.tools)

end Settings

end Runbook
