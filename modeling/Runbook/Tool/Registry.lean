import Runbook.Tool.Toolbox

/-!
# The registry of tools

Tools and their descriptions in two tables by name, in order of registration.  A name is registered
once: a second registration is refused and changes nothing.
-/

namespace Runbook.Tool

/-- **The registered tools.** -/
structure Registry where
  /-- The descriptions. -/
  specs : Table Spec
  /-- The tools themselves. -/
  tools : Table Tool

namespace Registry

/-- The registry without tools. -/
def empty : Registry := ⟨[], []⟩

instance : Inhabited Registry := ⟨empty⟩

/-- **Registers a tool** under the name of its description. -/
def register (r : Registry) (spec : Spec) (tool : Tool) : Except Error Registry :=
  if r.specs.contains spec.name then .error (.duplicate spec.name)
  else .ok ⟨r.specs.put spec.name spec, r.tools.put spec.name tool⟩

/-- Registers tools one after another. -/
def registerAll (r : Registry) : List (Spec × Tool) → Except Error Registry
  | [] => .ok r
  | (spec, tool) :: rest =>
    match r.register spec tool with
    | .error e => .error e
    | .ok r => r.registerAll rest

/-- The names of the tools. -/
def names (r : Registry) : List String :=
  r.specs.keys

/-- The number of tools. -/
def size (r : Registry) : Nat :=
  r.specs.length

/-- **The answer of a registered tool.** -/
def call (r : Registry) (tool : String) (arguments : Table Json) (model : Option Model) :
    Except Error Json :=
  match r.tools.get? tool with
  | some f => f arguments model
  | none => .error (.notFound tool)

/-- The registered tools as a toolbox. -/
def toolbox (r : Registry) : Toolbox where
  spec? := fun tool => r.specs.get? tool
  call := r.call

end Registry

end Runbook.Tool
