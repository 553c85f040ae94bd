import Runbook.Tool.Spec

/-!
# Tools

A tool answers a call with a value or an error; it may ask a language model, if the run has one.
A `Toolbox` is all that running and checking a plan know about tools: their descriptions, and how
they answer.
-/

namespace Runbook

namespace Tool

/-- **Why a tool gives no value.** -/
inductive Error
  /-- There is no tool of this name. -/
  | notFound (tool : String)
  /-- There is a tool of this name already. -/
  | duplicate (tool : String)
  /-- The tool is declared without a command. -/
  | noCommand (tool : String)
  /-- The command cannot be started. -/
  | notStarted (tool reason : String)
  /-- The command ended with a code other than zero. -/
  | exited (tool : String) (code : Int) (diagnostics : String)
  /-- The tool says why it failed. -/
  | failed (tool reason : String)
deriving DecidableEq

/-- The message of an error. -/
def Error.message : Error → String
  | notFound tool => s!"The tool {tool} doesn't exist."
  | duplicate tool => s!"tool '{tool}' is already registered"
  | noCommand tool => s!"tool '{tool}' has no command to run"
  | notStarted tool reason => s!"tool '{tool}' could not start: {reason}"
  | exited tool code diagnostics => s!"tool '{tool}' exited with code {code}: {diagnostics}"
  | failed tool reason => s!"tool '{tool}' failed: {reason}"

/-- A language model: the text it generates for a prompt, or why it does not. -/
abbrev Model := String → Except String String

end Tool

/-- **A tool**: its answer to arguments, with the model of the run if there is one. -/
abbrev Tool := Table Json → Option Tool.Model → Except Tool.Error Json

/-- **What a run knows about tools.** -/
structure Toolbox where
  /-- The description of a tool that can be called. -/
  spec? : String → Option Tool.Spec
  /-- The answer of a tool to arguments. -/
  call : String → Table Json → Option Tool.Model → Except Tool.Error Json

/-- The toolbox has a tool of this name. -/
def Toolbox.offers (box : Toolbox) (tool : String) : Bool :=
  (box.spec? tool).isSome

end Runbook
