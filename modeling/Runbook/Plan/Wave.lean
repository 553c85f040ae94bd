import Runbook.Plan.Order

/-!
# Waves

The steps of a graph grouped by depth: the depth of a step is the length of the longest chain of
dependencies that ends at it.  A wave needs only the waves before it.
-/

namespace Runbook.Plan.Graph

/-- The depth of a step whose dependencies have these depths. -/
def depthAbove (depths : Table Nat) (s : Step) : Nat :=
  (s.dependencies.toList.filterMap fun d => depths.get? d).foldl
    (fun deepest k => max deepest (k + 1)) 0

/-- The depth of each step, given an order in which dependencies come first. -/
def depths (g : Graph) (order : List String) : Table Nat :=
  order.foldl
    (fun depths name =>
      match g.find? name with
      | some s => depths.put name (depthAbove depths s)
      | none => depths.put name 0)
    []

/-- The steps of one depth, in order of declaration. -/
def atDepth (g : Graph) (depths : Table Nat) (k : Nat) : List String :=
  g.names.filter fun name => depths.get? name == some k

/-- **The waves of a graph**, one for each depth. -/
def waves (g : Graph) : Except OrderError (List (List String)) :=
  match g.order with
  | .error e => .error e
  | .ok order =>
    let depths := g.depths order
    let count := depths.values.foldl (fun most k => max most (k + 1)) 0
    .ok ((List.range count).map (g.atDepth depths))

end Runbook.Plan.Graph
