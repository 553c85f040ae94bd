import Runbook.Plan.Step

/-!
# Step graphs

The steps of a plan, each with a name of its own, in the order in which the plan declares them.  A
later record with a name that is there already replaces the step and leaves its place
(`Graph.put`).
-/

namespace Runbook.Plan

/-- **The steps of a plan**, in order of declaration. -/
structure Graph where
  /-- The steps, in order. -/
  steps : List Step
  /-- No two steps have the same name. -/
  names_nodup : (steps.map Step.name).Nodup

namespace Graph

/-- The graph without steps. -/
def empty : Graph := ⟨[], List.nodup_nil⟩

instance : Inhabited Graph := ⟨empty⟩

/-- The names of the steps, in order. -/
def names (g : Graph) : List String :=
  g.steps.map Step.name

/-- The number of steps. -/
def size (g : Graph) : Nat :=
  g.steps.length

/-- The step of a name. -/
def find? (g : Graph) (name : String) : Option Step :=
  g.steps.find? fun s => s.name == name

/-- The graph has a step of this name. -/
def contains (g : Graph) (name : String) : Bool :=
  g.names.contains name

/-- `steps` with `step` instead of the one of its name, or at the end. -/
def putStep (step : Step) : List Step → List Step
  | [] => [step]
  | s :: rest => if s.name = step.name then step :: rest else s :: putStep step rest

theorem names_putStep (step : Step) (steps : List Step) :
    (putStep step steps).map Step.name =
      if step.name ∈ steps.map Step.name then steps.map Step.name
      else steps.map Step.name ++ [step.name] := by
  induction steps with
  | nil => simp [putStep]
  | cons s rest ih =>
    by_cases h : s.name = step.name
    · simp [putStep, h]
    · have h' : ¬ step.name = s.name := fun x => h x.symm
      by_cases hm : step.name ∈ rest.map Step.name <;> simp_all [putStep]

/-- **The graph with a step**, in place of the one of its name if there is one. -/
def put (g : Graph) (step : Step) : Graph where
  steps := putStep step g.steps
  names_nodup := by
    rw [names_putStep]
    split
    · exact g.names_nodup
    · rename_i h
      exact NameSet.nodup_append_singleton g.names_nodup h

theorem name_of_find? {g : Graph} {name : String} {step : Step} (h : g.find? name = some step) :
    step.name = name := by
  have hbeq := List.find?_some h
  exact eq_of_beq hbeq

/-- Changes the output of a step, if it is in the graph. -/
def setOutput (g : Graph) (name : String) (output : Json) : Graph where
  steps := g.steps.map fun s => if s.name = name then { s with output := some output } else s
  names_nodup := by
    have same : (g.steps.map fun s =>
        if s.name = name then { s with output := some output } else s).map Step.name =
        g.steps.map Step.name := by
      rw [List.map_map]
      apply List.map_congr_left
      intro s _
      simp only [Function.comp]
      split <;> rfl
    rw [same]
    exact g.names_nodup

/-- Reads records, each with its place in the list, into a graph. -/
def putRecords (g : Graph) (index : Nat) : List Record → Except Error Graph
  | [] => .ok g
  | r :: rest =>
    match Step.ofRecord index r with
    | .error e => .error e
    | .ok step => (g.put step).putRecords (index + 1) rest

/-- **The graph of a list of records.** -/
def ofRecords (records : List Record) : Except Error Graph :=
  empty.putRecords 0 records

/-- The graph of a list of steps. -/
def ofSteps (steps : List Step) : Graph :=
  steps.foldl put empty

end Graph

end Runbook.Plan
