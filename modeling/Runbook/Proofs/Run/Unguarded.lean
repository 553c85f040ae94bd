import Runbook.Proofs.Plan.Priority
import Runbook.Proofs.Run.Agreement
import Runbook.Proofs.Run.Course

/-!
# Sequential runs of plans without guards

Without guards no step is skipped, so every pass over the frontier finds the steps that are free, in
order of declaration, and a sequential run hands out the first of them.  Hence the history always
takes the first free step (`Reached.takesFirstFree_drive`, from one turn to the next), and when all
steps are done it is the least of the topological orders (`unguarded_run_is_least`).
-/

namespace Runbook.Run

theorem refusal?_of_unguarded {s : State} {step : Plan.Step} (h : step.guard = none) :
    s.refusal? step = none := by
  unfold State.refusal?
  rw [h]
  rfl

/-- The steps of the history, the one that completed first in front. -/
def State.ran (s : State) : List String :=
  s.workspace.history.map Entry.step

namespace Reached
variable {answers : Answers} {g : Plan.Graph} {s : State} {inFlight : List Pending}
  {changes : List Change}

/-! ## Nothing is skipped -/

section Unguarded
variable (hfree : ∀ step ∈ g.steps, step.guard = none)
include hfree

theorem skipped_eq_empty (hr : Reached answers g s inFlight changes) : s.skipped = ∅ := by
  induction hr with
  | start => rfl
  | skip _ hstep _ hguard _ =>
    rw [refusal?_of_unguarded (hfree _ hstep)] at hguard
    cases hguard
  | activate _ _ _ _ ih => exact ih
  | complete _ _ _ hnext ih =>
    rw [(complete_eq_ok hnext).2]
    exact ih

/-- **Without guards the steps that are done are those of the history**, in its order. -/
theorem ran_eq_done (hr : Reached answers g s inFlight changes) : s.ran = s.done.toList := by
  have hnone : ∀ name ∈ s.done.toList, (!s.skipped.contains name) = true := by
    intro name _
    rw [hr.skipped_eq_empty hfree]
    rfl
  exact hr.valid.history_eq.trans (List.filter_eq_self.mpr hnone)

/-! ## A pass finds the free steps -/

/-- **Without guards a pass finds an action for each step of the frontier**, in its order. -/
theorem names_pending (hr : Reached answers g s [] changes) :
    s.frontier.pending.map Pending.step = s.ready := by
  have hall : ∀ filled ∈ s.readySteps,
      ((s.refusal? filled).isNone && !s.activated.contains filled.name) = true := by
    intro filled hfilled
    obtain ⟨step, hstep, rfl, -⟩ := hr.mem_readySteps.mp hfilled
    have hguard : (step.fill s.workspace.outputs).guard = none := hfree step hstep
    rw [refusal?_of_unguarded hguard,
      NameSet.contains_eq_false_iff.mpr (hr.not_mem_activated _)]
    rfl
  rw [State.frontier_eq]
  show (s.actions s.readySteps).map Pending.step = s.ready
  rw [names_actions, List.filter_eq_self.mpr hall, names_readySteps]

omit hfree in
theorem ready_sublist (hr : Reached answers g s inFlight changes) : s.ready.Sublist g.names := by
  have hleft : s.remaining.toList.Sublist g.names := by
    rw [hr.remaining_eq]
    exact List.filter_sublist
  exact List.filter_sublist.trans hleft

omit hfree in
/-- A step that is not done, while all that it depends on is, belongs to the frontier. -/
theorem mem_ready_of_free (hr : Reached answers g s inFlight changes) {name : String}
    (hname : name ∈ g.names) (hleft : name ∉ s.done)
    (hready : ∀ d, g.DependsOn name d → d ∈ s.done) : name ∈ s.ready := by
  obtain ⟨step, hstep, rfl⟩ := Plan.Graph.mem_names.mp hname
  have hremaining := ((hr.valid.left_or_done _).mp hname).resolve_right hleft
  have hmem : step.fill s.workspace.outputs ∈ s.readySteps :=
    hr.mem_readySteps.mpr ⟨step, hstep, rfl, hremaining, fun d hd => hready d ⟨step, hstep, rfl, hd⟩⟩
  have hin : (step.fill s.workspace.outputs).name ∈ s.readySteps.map Plan.Step.name :=
    List.mem_map_of_mem hmem
  rwa [names_readySteps] at hin

/-- **The first action that a pass finds is that of the first declared of the free steps.** -/
theorem idxOf_first_le (hr : Reached answers g s [] changes) {action : Pending}
    {rest : List Pending} (hpending : s.frontier.pending = action :: rest) {free : String}
    (hname : free ∈ g.names) (hleft : free ∉ s.ran)
    (hready : ∀ d, g.DependsOn free d → d ∈ s.ran) :
    g.names.idxOf action.step ≤ g.names.idxOf free := by
  have hcons : s.ready = action.step :: rest.map Pending.step := by
    rw [← hr.names_pending hfree, hpending]
    rfl
  rw [hr.ran_eq_done hfree] at hleft hready
  have hmem : free ∈ s.ready := hr.mem_ready_of_free hname hleft hready
  have hsorted := (Plan.Graph.pairwise_idxOf g.names_nodup).sublist hr.ready_sublist
  rw [hcons] at hmem hsorted
  rcases List.mem_cons.mp hmem with rfl | hmem
  · exact Nat.le_refl _
  · exact Nat.le_of_lt ((List.pairwise_cons.mp hsorted).1 free hmem)

end Unguarded

end Reached

/-! ## What a turn adds to the history -/

/-- A step that is called on its own is added to the history, unless its tool fails. -/
theorem ran_settle_singleton (answers : Answers) (s : State) (action : Pending) :
    (settle answers s [action]).state.ran = s.ran ∨
      (settle answers s [action]).state.ran = s.ran ++ [action.step] := by
  cases hanswer : answers s.workspace.history action with
  | error reason =>
    rw [settle_of_error (receive_eq_error action hanswer)]
    exact Or.inl rfl
  | ok answer =>
    have hreceive := receive_eq_ok action hanswer
    cases hnext : s.complete (action.completeWith answer) with
    | error e =>
      rw [settle_of_twice hreceive hnext]
      exact Or.inl rfl
    | ok next =>
      rw [settle_of_ok hreceive hnext, (complete_eq_ok hnext).2]
      exact Or.inr List.map_append

theorem ran_frontier (s : State) : s.frontier.state.ran = s.ran := by
  unfold State.ran
  rw [State.frontier_eq]
  show (s.skipAll _).workspace.history.map Entry.step = _
  rw [State.workspace_skipAll]

theorem state_sequentialTurn_of_idle {answers : Answers} {s : State}
    (hidle : s.frontier.pending = []) :
    (sequentialTurn answers s).state = s.frontier.state := by
  unfold sequentialTurn
  dsimp only
  rw [hidle]
  dsimp only
  split <;> rfl

theorem state_sequentialTurn {answers : Answers} {s : State} {action : Pending}
    {rest : List Pending} (hpending : s.frontier.pending = action :: rest) :
    (sequentialTurn answers s).state =
      (settle answers (s.frontier.state.activateAll [action]) [action]).state := by
  unfold sequentialTurn
  dsimp only
  rw [hpending]
  rfl

/-- **A sequential turn adds the first pending step to the history**, or nothing. -/
theorem ran_sequentialTurn (answers : Answers) (s : State) :
    (sequentialTurn answers s).state.ran = s.ran ∨ ∃ action rest,
      s.frontier.pending = action :: rest ∧
        (sequentialTurn answers s).state.ran = s.ran ++ [action.step] := by
  cases hpending : s.frontier.pending with
  | nil =>
    rw [state_sequentialTurn_of_idle hpending]
    exact Or.inl (ran_frontier s)
  | cons action rest =>
    rw [state_sequentialTurn hpending]
    have hsame : (s.frontier.state.activateAll [action]).ran = s.ran := ran_frontier s
    rcases ran_settle_singleton answers (s.frontier.state.activateAll [action]) action with
      hran | hran
    · exact Or.inl (hran.trans hsame)
    · exact Or.inr ⟨action, rest, rfl, hsame ▸ hran⟩

namespace Reached
variable {answers : Answers} {g : Plan.Graph} {s : State} {changes : List Change}

/-! ## Throughout a run -/

/-- **After a sequential turn the history takes the first free step**, if it did before. -/
theorem takesFirstFree_turn (hr : Reached answers g s [] changes)
    (hfree : ∀ step ∈ g.steps, step.guard = none) (h : g.TakesFirstFree s.ran) :
    g.TakesFirstFree (sequentialTurn answers s).state.ran := by
  rcases ran_sequentialTurn answers s with hran | ⟨action, rest, hpending, hran⟩
  · rwa [hran]
  · rw [hran]
    exact h.concat fun free => hr.idxOf_first_le hfree hpending

/-- **Throughout a sequential run the history takes the first free step.** -/
theorem takesFirstFree_drive (hg : g.orderError? = none)
    (hfree : ∀ step ∈ g.steps, step.guard = none) (hr : Reached answers g s [] changes)
    (h : g.TakesFirstFree s.ran) (completion : Completion) (wave : Nat) :
    g.TakesFirstFree (Run.drive answers completion .sequential wave s).state.ran := by
  refine drive_induction (motive := fun _ s t => ∀ changes, Reached answers g s [] changes →
    g.TakesFirstFree s.ran → g.TakesFirstFree t.state.ran) ?_ ?_ ?_ wave s changes hr h
  · intro wave s hnone
    cases hnone
  · intro wave s t outcome ht _ changes hr h
    obtain rfl : sequentialTurn answers s = t := Option.some.inj ht
    exact hr.takesFirstFree_turn hfree h
  · intro wave s t rest ht hgoes ih changes hr h
    obtain ⟨flying, hreached, hflying, -⟩ := hr.turn hg (takes_of_turn? ht)
    obtain rfl := hflying hgoes
    obtain rfl : sequentialTurn answers s = t := Option.some.inj ht
    exact ih _ hreached (hr.takesFirstFree_turn hfree h)

end Reached

/-! ## When all steps are done -/

/-- **The order in which steps were done is topological**, once all of them are. -/
theorem Valid.topological {g : Plan.Graph} {s : State} (hs : Valid g s)
    (hall : ∀ name, name ∈ s.done ↔ name ∈ g.names) : g.Topological s.done.toList where
  perm := (List.perm_ext_iff_of_nodup s.done.nodup g.names_nodup).mpr hall
  after := by
    rintro _ other ⟨step, hstep, rfl, hmem⟩
    have hdone : step.name ∈ s.done.toList :=
      (hall step.name).mpr (Plan.Graph.name_mem_names hstep)
    obtain ⟨earlier, later, hsplit⟩ := List.append_of_mem hdone
    exact (Plan.mem_iff_idxOf_lt s.done.nodup hsplit).mp
      (hs.done_after step hstep earlier later hsplit other hmem)

/-- **A sequential run without guards goes in the least topological order**, by declaration, if no
tool fails.  It ends well then, and the steps of its history are in that order. -/
theorem unguarded_run_is_least {box : Toolbox} {files : Files} {content : String} {s : State}
    (h : prepare box files content = .ok s) (hfree : ∀ step ∈ s.graph.steps, step.guard = none)
    (answers : Answers) (completion : Completion)
    (htools : ∀ step tool e,
      (drive answers completion .sequential 0 s).outcome ≠ .error (.tool step tool e)) :
    let t := drive answers completion .sequential 0 s
    t.outcome = .ok () ∧
      s.graph.LeastTopological (t.state.workspace.history.map Entry.step) := by
  intro t
  obtain ⟨flying, hreached, hended⟩ := reached_of_prepare h answers completion .sequential
  obtain ⟨g, rfl, hg⟩ := start_of_prepare h
  have hfirst : g.TakesFirstFree t.state.ran :=
    Reached.takesFirstFree_drive hg hfree .start .nil completion 0
  change Ended answers t.state flying t.outcome at hended
  have htools : ∀ step tool e, t.outcome ≠ .error (.tool step tool e) := htools
  generalize t.outcome = outcome at hended htools ⊢
  cases hended with
  | failed => exact absurd rfl (htools _ _ _)
  | finished _ hfinished =>
    refine ⟨rfl, ?_⟩
    have hran : t.state.ran = t.state.done.toList := hreached.ran_eq_done hfree
    have hall := (hreached.of_finished hfinished).1
    exact (hran ▸ hreached.valid.topological hall).least hfirst

/-- A step that is declared before the one that it depends on, and one that waits for nothing. -/
def declaredAhead : String :=
  "- name: a\n  toolname: t\n  dependency: c\n- name: b\n  toolname: t\n- name: c\n  toolname: t\n"

theorem unguarded_run_is_least_of_declaredAhead :
    ∃ s, prepare echoing .empty declaredAhead = .ok s ∧
      (∀ step ∈ s.graph.steps, step.guard = none) ∧
      let t := sequential echoing s
      (∀ step tool e, t.outcome ≠ .error (.tool step tool e)) ∧ t.outcome = .ok () ∧
        s.graph.LeastTopological (t.state.workspace.history.map Entry.step) := by
  have hok : ((prepare echoing .empty declaredAhead).toOption.any fun s =>
      s.graph.steps.all fun step => step.guard.isNone) = true := by
    decide +kernel
  obtain ⟨s, hs, hall⟩ := exists_ok_of_any hok
  have hfree : ∀ step ∈ s.graph.steps, step.guard = none := fun step hstep =>
    Option.isNone_iff_eq_none.mp (List.all_eq_true.mp hall step hstep)
  have htools : ∀ step tool e, (sequential echoing s).outcome ≠ .error (.tool step tool e) := by
    obtain ⟨_, -, hended⟩ := reached_of_prepare hs (.ofToolbox echoing none) .declared .sequential
    intro step tool e hfails
    change Ended _ _ _ (sequential echoing s).outcome at hended
    rw [hfails] at hended
    cases hended with
    | failed _ hanswer => cases hanswer
  exact ⟨s, hs, hfree, htools, unguarded_run_is_least hs hfree _ .declared htools⟩

end Runbook.Run
