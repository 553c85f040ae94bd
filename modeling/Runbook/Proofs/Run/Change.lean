import Runbook.Proofs.Plan.Graph
import Runbook.Run.Trace

/-!
# The changes of a run

A run changes its state in three ways: it skips a step, hands one out, or completes one.  A trace
tells which changes were made, in order (`Trace.changes`), and the state that they lead to is found
by making them again (`State.replay`).

`Reached` says which rows of changes a run may make at all: a step is taken up when it is left to be
done, was not handed out, and waits for nothing; it is skipped if its guard does not hold and handed
out otherwise; and only an action that was handed out completes, with what its tool answers.  Neither
the mode of a run nor its completion order is mentioned.
-/

namespace Runbook.Run

/-- **A change of the state of a run.** -/
inductive Change
  /-- A step is skipped. -/
  | skip (step : String)
  /-- A step is handed out, as this action. -/
  | activate (action : Pending)
  /-- A step is completed. -/
  | complete (c : Completed)

namespace State

/-- The state after a change; completing a step that has an output changes nothing. -/
def apply (s : State) : Change → State
  | .skip step => s.skip step
  | .activate action => s.activate action.step
  | .complete c =>
    match s.complete c with
    | .ok next => next
    | .error _ => s

/-- **The state after a row of changes.** -/
def replay (s : State) (changes : List Change) : State :=
  changes.foldl State.apply s

@[simp] theorem replay_nil (s : State) : s.replay [] = s := rfl

theorem replay_append (s : State) (changes more : List Change) :
    s.replay (changes ++ more) = (s.replay changes).replay more :=
  List.foldl_append

theorem replay_concat (s : State) (changes : List Change) (change : Change) :
    s.replay (changes ++ [change]) = (s.replay changes).apply change := by
  rw [replay_append]
  rfl

theorem apply_complete {s next : State} {c : Completed} (h : s.complete c = .ok next) :
    s.apply (.complete c) = next := by
  simp only [apply, h]

end State

/-- **The changes of a round**, in order. -/
def Round.changes (r : Round) : List Change :=
  r.pass.skipped.map (fun k => .skip k.step) ++ r.started.map .activate ++
    r.completed.map .complete

/-- **The changes of a run**, in order. -/
def Trace.changes (t : Trace) : List Change :=
  t.rounds.flatMap Round.changes

@[simp] theorem Trace.changes_ended (s : State) (outcome : Except Error Unit) :
    (Trace.ended s outcome).changes = [] := rfl

@[simp] theorem Trace.changes_after (r : Round) (t : Trace) :
    (t.after r).changes = r.changes ++ t.changes :=
  List.flatMap_cons

/-- **The actions that a row of changes hands out**, in order.  Tools are called for these alone, and
at most once for each. -/
def handedOut (changes : List Change) : List Pending :=
  changes.filterMap fun
    | .activate action => some action
    | _ => none

section HandedOut
variable (changes : List Change)

@[simp] theorem handedOut_concat_skip (step : String) :
    handedOut (changes ++ [.skip step]) = handedOut changes := by
  simp [handedOut]

@[simp] theorem handedOut_concat_activate (action : Pending) :
    handedOut (changes ++ [.activate action]) = handedOut changes ++ [action] := by
  simp [handedOut]

@[simp] theorem handedOut_concat_complete (c : Completed) :
    handedOut (changes ++ [.complete c]) = handedOut changes := by
  simp [handedOut]

end HandedOut

/-! ## What a run may do -/

/-- **A step that a run may take up**: it is left to be done, was not handed out, and waits for
nothing. -/
structure State.Open (s : State) (step : Plan.Step) : Prop where
  left : step.name ∈ s.remaining
  idle : step.name ∉ s.activated
  ready : ∀ d ∈ step.dependencies.toList, d ∈ s.done

/-- **The states of runs** of a graph, each with the actions in flight and the changes that led to
it.  Of the steps of the graph only the outputs change, so that the steps it starts with tell what a
step depends on, how it is guarded and what its action is. -/
inductive Reached (answers : Answers) (g : Plan.Graph) : State → List Pending → List Change → Prop
  | start : Reached answers g (.start g) [] []
  | skip {s : State} {inFlight : List Pending} {changes : List Change} {step : Plan.Step}
    {expression : String} (hr : Reached answers g s inFlight changes) (hstep : step ∈ g.steps)
    (hopen : s.Open step) (hguard : s.refusal? step = some expression) :
    Reached answers g (s.skip step.name) inFlight (changes ++ [.skip step.name])
  | activate {s : State} {inFlight : List Pending} {changes : List Change} {step : Plan.Step}
    (hr : Reached answers g s inFlight changes) (hstep : step ∈ g.steps) (hopen : s.Open step)
    (hguard : s.refusal? step = none) :
    Reached answers g (s.activate step.name) (inFlight ++ [s.action step])
      (changes ++ [.activate (s.action step)])
  | complete {s next : State} {inFlight : List Pending} {changes : List Change} {action : Pending}
    {answer : Json} (hr : Reached answers g s inFlight changes) (hflight : action ∈ inFlight)
    (hanswer : answers s.workspace.history action = .ok answer)
    (hnext : s.complete (action.completeWith answer) = .ok next) :
    Reached answers g next (inFlight.filter fun a => a.step != action.step)
      (changes ++ [.complete (action.completeWith answer)])

namespace Reached
variable {answers : Answers} {g : Plan.Graph} {s : State} {inFlight : List Pending}
  {changes : List Change}

/-- A state that is reached is the state that its changes lead to. -/
theorem replay_eq (hr : Reached answers g s inFlight changes) :
    (State.start g).replay changes = s := by
  induction hr with
  | start => rfl
  | skip _ _ _ _ ih => rw [State.replay_concat, ih]; rfl
  | activate _ _ _ _ ih => rw [State.replay_concat, ih]; rfl
  | complete _ _ _ hnext ih => rw [State.replay_concat, ih, State.apply_complete hnext]

/-- **Every moment of a run is reached.** -/
theorem of_prefix (hr : Reached answers g s inFlight changes) {before : List Change}
    (hb : before <+: changes) :
    ∃ flying, Reached answers g ((State.start g).replay before) flying before := by
  induction hr with
  | start =>
    obtain rfl := List.prefix_nil.mp hb
    exact ⟨[], .start⟩
  | skip hr hstep hopen hguard ih =>
    -- either the prefix ends with the last change, or it is one of what came before
    rcases List.prefix_concat_iff.mp hb with rfl | hb
    · rw [State.replay_concat, hr.replay_eq]
      exact ⟨_, .skip hr hstep hopen hguard⟩
    · exact ih hb
  | activate hr hstep hopen hguard ih =>
    rcases List.prefix_concat_iff.mp hb with rfl | hb
    · rw [State.replay_concat, hr.replay_eq]
      exact ⟨_, .activate hr hstep hopen hguard⟩
    · exact ih hb
  | complete hr hflight hanswer hnext ih =>
    rcases List.prefix_concat_iff.mp hb with rfl | hb
    · rw [State.replay_concat, hr.replay_eq, State.apply_complete hnext]
      exact ⟨_, .complete hr hflight hanswer hnext⟩
    · exact ih hb

/-- Only the outputs of the steps change. -/
theorem graph_eq (hr : Reached answers g s inFlight changes) :
    s.graph = g.fill s.workspace.outputs := by
  induction hr with
  | start => exact Plan.Graph.fill_nil.symm
  | skip _ _ _ _ ih => exact ih
  | activate _ _ _ _ ih => exact ih
  | complete _ _ _ hnext ih =>
    rw [(complete_eq_ok hnext).2]
    show Plan.Graph.setOutput _ _ _ = _
    rw [ih, Plan.Graph.setOutput_fill]
    rfl

theorem find?_eq (hr : Reached answers g s inFlight changes) {name : String} {step : Plan.Step}
    (h : s.graph.find? name = some step) :
    ∃ bare ∈ g.steps, bare.name = name ∧ step = bare.fill s.workspace.outputs := by
  rw [hr.graph_eq] at h
  exact Plan.Graph.find?_fill.mp h

end Reached

end Runbook.Run
