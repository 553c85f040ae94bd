import Runbook.Run.State
import Runbook.Guard.Reader

/-!
# The frontier

The steps that can be taken up because everything they depend on is done.  A pass over the frontier
looks at them in order: a step whose guard does not hold is skipped on the spot, so that later
steps of the same pass see it as done; any other step that was not handed out before becomes a
pending action, in which references to outputs are replaced.
-/

namespace Runbook.Run

/-- **A step that is ready to run.** -/
structure Pending where
  /-- The step. -/
  step : String
  /-- Its number in the plan. -/
  ordinal : Option Json
  /-- The tool to call. -/
  tool : String
  /-- What to call it with. -/
  input : Table Json
  /-- The steps that it depends on. -/
  dependencies : List String
  /-- Its guard, with references replaced. -/
  guard : Option String
  /-- Its prompt for this input; the template itself if that cannot be expanded. -/
  prompt : String

namespace State

/-- The dependencies of a step are all done. -/
def isReady (s : State) (step : Plan.Step) : Bool :=
  step.dependencies.toList.all s.done.contains

/-- **The steps of the frontier**, in order of declaration. -/
def ready (s : State) : List String :=
  s.remaining.toList.filter fun name => (s.graph.find? name).any s.isReady

/-- The expression of a guard, with references replaced. -/
def guardText (s : State) (guard : String) : String :=
  Reference.substitute s.workspace.outputs guard

/-- The expression of the guard of a step, if it does not hold. -/
def refusal? (s : State) (step : Plan.Step) : Option String :=
  (step.guard.map s.guardText).filter fun expression => !Guard.holds expression

/-- The action of a step, with the references in its input and its guard replaced. -/
def action (s : State) (step : Plan.Step) : Pending :=
  let input := Reference.substituteMembers s.workspace.outputs step.input
  { step := step.name
    ordinal := step.ordinal
    tool := step.tool
    input := input
    dependencies := step.dependencies.toList
    guard := step.guard.map s.guardText
    prompt := match step.renderPrompt input with
      | .ok text => text
      | .error _ => step.prompt }

/-- **The action of a step**, or the first of its dependencies that is not done. -/
def prepare (s : State) (step : Plan.Step) : Except String Pending :=
  match step.dependencies.toList.find? fun d => !s.done.contains d with
  | some d => .error d
  | none => .ok (s.action step)

/-- What is said of a step that cannot be prepared. -/
def waitingMessage (dependency : String) : String :=
  s!"dependency action {dependency} hasn't executed"

end State

/-- A step that a pass skipped, and the expression that did not hold. -/
structure Skip where
  step : String
  expression : String

/-- **A pass over the frontier**: the state after it, the actions that it found, and the steps that
it skipped. -/
structure Pass where
  state : State
  pending : List Pending
  skipped : List Skip

namespace Pass

/-- The pass before it looks at any step. -/
def start (s : State) : Pass := ⟨s, [], []⟩

/-- Takes a step up unless it was handed out before. -/
def dispatch (p : Pass) (step : Plan.Step) : Pass :=
  if p.state.activated.contains step.name then p
  else
    match p.state.prepare step with
    | .ok action => { p with pending := p.pending ++ [action] }
    | .error _ => p

/-- Looks at a step of the frontier. -/
def take (p : Pass) (name : String) : Pass :=
  match p.state.graph.find? name with
  | none => p
  | some step =>
    match p.state.refusal? step with
    | none => p.dispatch step
    | some expression =>
      { p with
        state := p.state.skip name
        skipped := p.skipped ++ [⟨name, expression⟩] }

end Pass

/-- **A pass over the frontier of a state.** -/
def State.frontier (s : State) : Pass :=
  s.ready.foldl Pass.take (Pass.start s)

/-! ## What a pass finds

A pass reads the outputs, the steps and the actions handed out, and it changes none of them.  So it
finds what a look at the state before it finds: `State.frontier_eq`. -/

namespace State

/-- Skips steps one after another. -/
def skipAll (s : State) (skips : List Skip) : State :=
  skips.foldl (fun s k => s.skip k.step) s

/-- The steps of the frontier, as the graph has them. -/
def readySteps (s : State) : List Plan.Step :=
  s.ready.filterMap s.graph.find?

/-- The steps among these whose guards do not hold. -/
def refusals (s : State) (steps : List Plan.Step) : List Skip :=
  steps.filterMap fun step => (s.refusal? step).map fun expression => ⟨step.name, expression⟩

/-- The actions of the steps among these that are to run and were not handed out. -/
def actions (s : State) (steps : List Plan.Step) : List Pending :=
  (steps.filter fun step => (s.refusal? step).isNone && !s.activated.contains step.name).map
    s.action

@[simp] theorem skipAll_nil (s : State) : s.skipAll [] = s := rfl

theorem skipAll_append (s : State) (skips more : List Skip) :
    s.skipAll (skips ++ more) = (s.skipAll skips).skipAll more :=
  List.foldl_append

theorem skipAll_concat (s : State) (skips : List Skip) (k : Skip) :
    s.skipAll (skips ++ [k]) = (s.skipAll skips).skip k.step := by
  rw [skipAll_append]
  rfl

@[simp] theorem graph_skipAll (s : State) (skips : List Skip) :
    (s.skipAll skips).graph = s.graph := by
  induction skips generalizing s with
  | nil => rfl
  | cons k rest ih => exact ih (s.skip k.step)

@[simp] theorem workspace_skipAll (s : State) (skips : List Skip) :
    (s.skipAll skips).workspace = s.workspace := by
  induction skips generalizing s with
  | nil => rfl
  | cons k rest ih => exact ih (s.skip k.step)

@[simp] theorem activated_skipAll (s : State) (skips : List Skip) :
    (s.skipAll skips).activated = s.activated := by
  induction skips generalizing s with
  | nil => rfl
  | cons k rest ih => exact ih (s.skip k.step)

theorem mem_done_skipAll {s : State} {skips : List Skip} {name : String} :
    name ∈ (s.skipAll skips).done ↔ name ∈ s.done ∨ ∃ k ∈ skips, k.step = name := by
  induction skips generalizing s with
  | nil => simp
  | cons k rest ih =>
    change name ∈ ((s.skip k.step).skipAll rest).done ↔ _
    rw [ih]
    simp [skip, eq_comm, or_assoc, or_left_comm]

theorem mem_remaining_skipAll {s : State} {skips : List Skip} {name : String} :
    name ∈ (s.skipAll skips).remaining ↔ name ∈ s.remaining ∧ ∀ k ∈ skips, k.step ≠ name := by
  induction skips generalizing s with
  | nil => simp
  | cons k rest ih =>
    change name ∈ ((s.skip k.step).skipAll rest).remaining ↔ _
    rw [ih, List.forall_mem_cons]
    simp [skip, eq_comm, and_left_comm, and_assoc]

theorem refusal?_congr {s t : State} (h : s.workspace = t.workspace) (step : Plan.Step) :
    s.refusal? step = t.refusal? step := by
  unfold refusal? guardText
  rw [h]

theorem action_congr {s t : State} (h : s.workspace = t.workspace) (step : Plan.Step) :
    s.action step = t.action step := by
  unfold action guardText
  rw [h]

/-- Every step can be prepared whose dependencies are done. -/
theorem prepare_eq_ok {s : State} {step : Plan.Step}
    (h : ∀ d ∈ step.dependencies.toList, d ∈ s.done) : s.prepare step = .ok (s.action step) := by
  have hnone : (step.dependencies.toList.find? fun d => !s.done.contains d) = none :=
    List.find?_eq_none.mpr fun d hd => by simp [NameSet.contains_iff.mpr (h d hd)]
  unfold prepare
  rw [hnone]

theorem isReady_iff {s : State} {step : Plan.Step} :
    s.isReady step = true ↔ ∀ d ∈ step.dependencies.toList, d ∈ s.done := by
  simp [isReady]

theorem refusals_append (s : State) (steps more : List Plan.Step) :
    s.refusals (steps ++ more) = s.refusals steps ++ s.refusals more :=
  List.filterMap_append

theorem actions_append (s : State) (steps more : List Plan.Step) :
    s.actions (steps ++ more) = s.actions steps ++ s.actions more := by
  unfold actions
  rw [List.filter_append, List.map_append]

/-- A step of the frontier is in the graph, still to be done, and waits for nothing. -/
theorem mem_ready {s : State} {name : String} :
    name ∈ s.ready ↔
      name ∈ s.remaining ∧ ∃ step, s.graph.find? name = some step ∧ s.isReady step = true := by
  rw [ready, List.mem_filter, Option.any_eq_true_iff_get]
  constructor
  · rintro ⟨hmem, hsome, hready⟩
    exact ⟨hmem, _, (Option.some_get hsome).symm, hready⟩
  · rintro ⟨hmem, step, hfind, hready⟩
    exact ⟨hmem, by simp [hfind], by simpa [hfind] using hready⟩

/-- What a pass makes of the next step, given what it made of those before. -/
theorem take_skipAll (s : State) {name : String} {step : Plan.Step}
    (hfind : s.graph.find? name = some step) (hready : s.isReady step = true)
    (skips : List Skip) (pending : List Pending) :
    Pass.take ⟨s.skipAll skips, pending, skips⟩ name =
      ⟨s.skipAll (skips ++ s.refusals [step]), pending ++ s.actions [step],
        skips ++ s.refusals [step]⟩ := by
  have hname : step.name = name := Plan.Graph.name_of_find? hfind
  have hprepare : (s.skipAll skips).prepare step = .ok (s.action step) := by
    rw [prepare_eq_ok fun d hd => mem_done_skipAll.mpr (Or.inl (isReady_iff.mp hready d hd)),
      action_congr (workspace_skipAll s skips)]
  unfold Pass.take
  simp only [graph_skipAll, hfind, refusal?_congr (workspace_skipAll s skips)]
  cases hrefusal : s.refusal? step with
  | some expression => simp [refusals, actions, hrefusal, skipAll_concat, hname]
  | none =>
    cases hactive : s.activated.contains step.name with
    | true => simp [Pass.dispatch, refusals, actions, hrefusal, hactive]
    | false => simp [Pass.dispatch, refusals, actions, hrefusal, hactive, hprepare]

theorem foldl_take (s : State) (names : List String)
    (hready : ∀ n ∈ names, ∃ step, s.graph.find? n = some step ∧ s.isReady step = true)
    (skips : List Skip) (pending : List Pending) :
    names.foldl Pass.take ⟨s.skipAll skips, pending, skips⟩ =
      ⟨s.skipAll (skips ++ s.refusals (names.filterMap s.graph.find?)),
        pending ++ s.actions (names.filterMap s.graph.find?),
        skips ++ s.refusals (names.filterMap s.graph.find?)⟩ := by
  induction names generalizing skips pending with
  | nil => simp [refusals, actions]
  | cons n rest ih =>
    obtain ⟨step, hfind, hstep⟩ := hready n List.mem_cons_self
    have hrest := ih (fun m hm => hready m (List.mem_cons_of_mem n hm))
    have hcons : (n :: rest).filterMap s.graph.find? = [step] ++ rest.filterMap s.graph.find? :=
      List.filterMap_cons_some hfind
    rw [List.foldl_cons, take_skipAll s hfind hstep, hrest, hcons, refusals_append,
      actions_append, List.append_assoc, List.append_assoc]

/-- **What a pass finds**: it skips the ready steps whose guards do not hold, and finds the actions
of the others that were not handed out before. -/
theorem frontier_eq (s : State) :
    s.frontier = ⟨s.skipAll (s.refusals s.readySteps), s.actions s.readySteps,
      s.refusals s.readySteps⟩ := by
  have hready : ∀ n ∈ s.ready, ∃ step, s.graph.find? n = some step ∧ s.isReady step = true :=
    fun n hn => (mem_ready.mp hn).2
  have h := foldl_take s s.ready hready [] []
  simp only [List.nil_append, skipAll_nil] at h
  exact h

/-- The steps that a pass looks at. -/
theorem mem_readySteps {s : State} {step : Plan.Step} :
    step ∈ s.readySteps ↔
      s.graph.find? step.name = some step ∧ step.name ∈ s.remaining ∧ s.isReady step = true := by
  unfold readySteps
  rw [List.mem_filterMap]
  constructor
  · rintro ⟨n, hn, hfind⟩
    obtain ⟨hmem, step', hfind', hready⟩ := mem_ready.mp hn
    obtain rfl : step' = step := Option.some.inj (hfind'.symm.trans hfind)
    obtain rfl : step'.name = n := Plan.Graph.name_of_find? hfind
    exact ⟨hfind, hmem, hready⟩
  · rintro ⟨hfind, hmem, hready⟩
    exact ⟨step.name, mem_ready.mpr ⟨hmem, step, hfind, hready⟩, hfind⟩

end State

end Runbook.Run
