import Mathlib.Data.List.Nodup
import Runbook.Plan.Order
import Runbook.Reference

/-!
# Steps by name, and their outputs

A name stands for at most one step of a graph, and steps of distinct names become the steps of a
graph as they are (`Graph.steps_ofSteps`).  Writing outputs changes nothing else about a graph:
a graph some of whose steps got an output is the graph it was, filled with the outputs that are
bound (`Graph.fill`).
-/

namespace Runbook.Plan

/-- A step with the output that its name is bound to, if it is bound. -/
def Step.fill (outputs : Bindings) (s : Step) : Step :=
  { s with output := (outputs.get? s.name).or s.output }

namespace Graph
variable {g : Graph}

theorem mem_names {name : String} : name ∈ g.names ↔ ∃ step ∈ g.steps, step.name = name :=
  List.mem_map

theorem name_mem_names {step : Step} (h : step ∈ g.steps) : step.name ∈ g.names :=
  List.mem_map_of_mem h

/-- Two steps of one name are one step. -/
theorem step_eq_of_name {step other : Step} (hs : step ∈ g.steps) (ho : other ∈ g.steps)
    (h : step.name = other.name) : step = other :=
  List.inj_on_of_nodup_map g.names_nodup hs ho h

theorem find?_eq_some_iff {name : String} {step : Step} :
    g.find? name = some step ↔ step ∈ g.steps ∧ step.name = name := by
  constructor
  · intro h
    exact ⟨List.mem_of_find?_eq_some h, name_of_find? h⟩
  · rintro ⟨hmem, rfl⟩
    cases hfind : g.find? step.name with
    | none => exact absurd (beq_self_eq_true step.name) (List.find?_eq_none.mp hfind step hmem)
    | some other =>
      exact congrArg some
        (step_eq_of_name (List.mem_of_find?_eq_some hfind) hmem (name_of_find? hfind))

/-! ## Steps of distinct names -/

section Distinct
variable {steps : List Step}

theorem putStep_of_not_mem {step : Step} (h : step.name ∉ steps.map Step.name) :
    putStep step steps = steps ++ [step] := by
  induction steps with
  | nil => rfl
  | cons first rest ih =>
    have hne : first.name ≠ step.name := fun heq => h (heq ▸ List.mem_cons_self)
    have hrest : step.name ∉ rest.map Step.name := fun hin => h (List.mem_cons_of_mem _ hin)
    unfold putStep
    rw [if_neg hne, ih hrest]
    rfl

theorem steps_foldl_put {g : Graph} (h : (g.names ++ steps.map Step.name).Nodup) :
    (steps.foldl put g).steps = g.steps ++ steps := by
  induction steps generalizing g with
  | nil => exact (List.append_nil _).symm
  | cons step rest ih =>
    have hnew : step.name ∉ g.names := fun hin =>
      (List.nodup_append.mp h).2.2 _ hin _ List.mem_cons_self rfl
    have hput : (g.put step).steps = g.steps ++ [step] := putStep_of_not_mem hnew
    have hnames : (g.put step).names = g.names ++ [step.name] := by
      unfold names
      rw [hput, List.map_append]
      rfl
    have hnodup : ((g.put step).names ++ rest.map Step.name).Nodup := by
      rw [hnames, List.append_assoc]
      exact h
    rw [List.foldl_cons, ih hnodup, hput, List.append_assoc]
    rfl

/-- **Steps of distinct names become the steps of a graph**, in their order. -/
theorem steps_ofSteps (h : (steps.map Step.name).Nodup) : (ofSteps steps).steps = steps :=
  steps_foldl_put h

end Distinct

/-! ## Outputs -/

/-- **The graph filled with the outputs that its steps are bound to.** -/
def fill (g : Graph) (outputs : Bindings) : Graph where
  steps := g.steps.map (Step.fill outputs)
  names_nodup := by
    rw [List.map_map]
    exact g.names_nodup

@[simp] theorem names_fill (outputs : Bindings) : (g.fill outputs).names = g.names :=
  List.map_map

theorem fill_nil : g.fill [] = g := by
  have hsteps : g.steps.map (Step.fill []) = g.steps := List.map_id' _
  unfold fill
  simp only [hsteps]

theorem mem_steps_fill {outputs : Bindings} {filled : Step} :
    filled ∈ (g.fill outputs).steps ↔ ∃ step ∈ g.steps, step.fill outputs = filled :=
  List.mem_map

theorem find?_fill {outputs : Bindings} {name : String} {filled : Step} :
    (g.fill outputs).find? name = some filled ↔
      ∃ step ∈ g.steps, step.name = name ∧ filled = step.fill outputs := by
  rw [find?_eq_some_iff, mem_steps_fill]
  constructor
  · rintro ⟨⟨step, hstep, rfl⟩, hname⟩
    exact ⟨step, hstep, hname, rfl⟩
  · rintro ⟨step, hstep, hname, rfl⟩
    exact ⟨⟨step, hstep, rfl⟩, hname⟩

/-- Writing an output is filling with one more binding. -/
theorem setOutput_fill (outputs : Bindings) (name : String) (value : Json) :
    (g.fill outputs).setOutput name value = g.fill (Table.put outputs name value) := by
  unfold fill setOutput
  congr 1
  rw [List.map_map]
  apply List.map_congr_left
  intro step _
  by_cases h : step.name = name
  · simp [Step.fill, Table.get?_put, h]
  · simp [Step.fill, Table.get?_put, h]

/-- Filling goes by what each name is bound to, not by the order of the bindings. -/
theorem fill_congr {outputs others : Bindings} (h : ∀ name, outputs.get? name = others.get? name) :
    g.fill outputs = g.fill others := by
  have hfill : Step.fill outputs = Step.fill others := by
    funext step
    unfold Step.fill
    rw [h step.name]
  unfold fill
  simp only [hfill]

end Graph

end Runbook.Plan
