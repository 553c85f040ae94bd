import Runbook.Plan.Order
import Runbook.Tool.Toolbox

/-!
# Why a run fails

The causes for which a plan is not run or not run to its end, and their messages.
-/

namespace Runbook.Run

/-- **Why a run fails.** -/
inductive Error
  /-- The plan gives no steps. -/
  | plan (e : Plan.Error)
  /-- The steps have no order. -/
  | unordered (e : Plan.Graph.OrderError)
  /-- The tool of a step gives no value. -/
  | tool (step name : String) (e : Tool.Error)
  /-- No step can be run or skipped, but these are left. -/
  | stalled (remaining : List String)
  /-- A step has an output already. -/
  | completedTwice (step : String)

/-- The message of an error. -/
def Error.message : Error → String
  | plan e => e.message
  | unordered e => e.message
  | tool step name e => s!"step '{step}' failed calling tool '{name}': {e.message}"
  | stalled remaining =>
    "no step can make progress; still waiting on: " ++ ", ".intercalate remaining
  | completedTwice step => s!"step '{step}' completed more than once"

end Runbook.Run
