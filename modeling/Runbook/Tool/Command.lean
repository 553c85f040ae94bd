import Runbook.Text.Blank
import Runbook.Shell.Run
import Runbook.Tool.Toolbox

/-!
# Command tools

A tool that runs a script.  Every argument is handed over in an environment variable of its own
(`Command.variableName`), and the whole table of arguments as JSON in one more, which comes last.
What the script writes to its first output is the value of the call; a script that ends with
another code than zero fails, with what it wrote to its second output.
-/

namespace Runbook.Tool.Command

/-- The character of a variable's name for a character of an argument's name. -/
def variableChar (c : Char) : Char :=
  if c.isAlphanum then c.toUpper else '_'

/-- The variable for an argument. -/
def variableName (argument : String) : String :=
  "ARG_" ++ String.ofList (argument.toList.map variableChar)

/-- The variable for the whole table of arguments. -/
def inputVariable : String := "SOPFLOW_INPUT"

/-- **The environment for arguments**, in the order in which the variables are set. -/
def environment (arguments : Table Json) : List (String × String) :=
  (arguments.map fun (k, v) => (variableName k, v.display)) ++
    [(inputVariable, (Json.object arguments).compact)]

/-- A variable cannot be handed over if a zero character is in its name or value. -/
def isClean (entry : String × String) : Bool :=
  !entry.1.toList.contains '\x00' && !entry.2.toList.contains '\x00'

/-- **Runs a script**, or says why it cannot be started. -/
def run (script : String) (environment : List (String × String)) :
    Except String Shell.Outcome :=
  if environment.all isClean then .ok (Shell.run script environment)
  else .error "failed to spawn bash: nul byte found in provided data"

/-- **The tool of a name that runs a script**; without a script it only can be declared. -/
def tool (name : String) (script : Option String) : Tool :=
  fun arguments _ =>
    match script with
    | none => .error (.noCommand name)
    | some script =>
      match run script (environment arguments) with
      | .error reason => .error (.notStarted name reason)
      | .ok outcome =>
        if outcome.code = 0 then
          .ok (.text (String.ofList (Text.dropEndWhile (· == '\n') outcome.output.toList)))
        else
          .error (.exited name outcome.code
            (String.ofList (Text.trim outcome.diagnostics.toList)))

end Runbook.Tool.Command
