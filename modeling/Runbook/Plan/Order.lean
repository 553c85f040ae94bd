import Runbook.Plan.Graph

/-!
# Order of execution

A step can be placed once all its dependencies are.  `Progress` is the state of placing the steps
of a graph one after another: how many dependencies each step still waits for, which steps are
queued because they wait for none, and which are placed.  The queue starts with the steps that have
no dependency, in order of declaration; the step at its head is placed, and the steps that now wait
for nothing join it, in order of declaration.  Steps on a cycle, and those behind one, are never
queued.

A dependency on a name that is no step of the graph counts as none here; it is an error of its own
(`Graph.unknownDependency?`).
-/

namespace Runbook.Plan

/-- **How far the steps of a graph are placed.** -/
structure Progress where
  /-- How many of its dependencies each step waits for. -/
  waiting : Table Nat
  /-- The steps that wait for none and are not placed. -/
  queue : List String
  /-- The steps that are placed, in order. -/
  placed : List String

namespace Graph

/-- The number of dependencies of a step that are steps of the graph. -/
def inDegree (g : Graph) (s : Step) : Nat :=
  (s.dependencies.toList.filter g.contains).length

/-- The steps that depend on `name`, in order of declaration. -/
def dependents (g : Graph) (name : String) : List String :=
  (g.steps.filter fun s => s.dependencies.contains name).map Step.name

/-- The state before any step is placed. -/
def start (g : Graph) : Progress where
  waiting := g.steps.map fun s => (s.name, g.inDegree s)
  queue := (g.steps.filter fun s => g.inDegree s == 0).map Step.name
  placed := []

/-- The counters once the step `name` is placed. -/
def countDown (g : Graph) (name : String) (waiting : Table Nat) : Table Nat :=
  let children := g.dependents name
  waiting.map fun (n, k) => (n, if children.contains n then k - 1 else k)

/-- The steps that depend on `name` and wait for nothing. -/
def freed (g : Graph) (name : String) (waiting : Table Nat) : List String :=
  let children := g.dependents name
  (waiting.filter fun (n, k) => children.contains n && k == 0).map Prod.fst

/-- Places the step at the head of the queue. -/
def place (g : Graph) (p : Progress) : Progress :=
  match p.queue with
  | [] => p
  | name :: rest =>
    let waiting := g.countDown name p.waiting
    { waiting, queue := rest ++ g.freed name waiting, placed := p.placed ++ [name] }

/-- The state after so many placements. -/
def progress (g : Graph) : Nat → Progress
  | 0 => g.start
  | k + 1 => g.place (g.progress k)

/-- The state once every step had its turn. -/
def final (g : Graph) : Progress :=
  g.progress g.size

/-- **The steps that are never placed**: those on a cycle of dependencies and those behind one. -/
def cycleMembers (g : Graph) : List String :=
  let placed := g.final.placed
  g.names.filter fun name => !placed.contains name

/-- **The first dependency on a name that is no step**, with the step that has it. -/
def unknownDependency? (g : Graph) : Option (String × String) :=
  g.steps.findSome? fun s =>
    (s.dependencies.toList.find? fun d => !g.contains d).map fun d => (s.name, d)

/-- **Why the steps of a graph have no order.** -/
inductive OrderError
  /-- A step depends on a name that is no step. -/
  | unknownDependency (step dependency : String)
  /-- These steps are on a cycle of dependencies or behind one. -/
  | cycle (members : List String)
deriving DecidableEq

/-- The message of an error. -/
def OrderError.message : OrderError → String
  | unknownDependency step dependency =>
    s!"step '{step}' depends on unknown step '{dependency}'"
  | cycle members => "dependency cycle detected involving: " ++ ", ".intercalate members

/-- What keeps the steps from having an order. -/
def orderError? (g : Graph) : Option OrderError :=
  match g.unknownDependency? with
  | some (step, dependency) => some (.unknownDependency step dependency)
  | none => if g.cycleMembers.isEmpty then none else some (.cycle g.cycleMembers)

/-- **An order of the steps** in which each comes after its dependencies. -/
def order (g : Graph) : Except OrderError (List String) :=
  match g.orderError? with
  | some e => .error e
  | none => .ok g.final.placed

/-- **The steps that no step depends on**, in order of declaration. -/
def sinks (g : Graph) : List String :=
  g.names.filter fun name => !g.steps.any fun s => s.dependencies.contains name

end Graph

end Runbook.Plan
