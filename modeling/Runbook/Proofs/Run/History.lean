import Runbook.Proofs.Run.Course

/-!
# The history of a sequential run

In a sequential run nothing happens between the moment at which a step is looked at and the one at
which its output is written.  So the entries of the history tell how the run went: each was made from
the workspace that the entries before it lead to (`Entry.Tells`), and the workspace of the run is the
one that all of them lead to (`Workspace.rebuild`).  This holds after every change of the run
(`sequential_history_replays`).
-/

namespace Runbook.Run

/-- **The workspace that a history leads to**: the outputs of its entries are written one after
another. -/
def Workspace.rebuild (history : List Entry) : Except Error Workspace :=
  history.foldlM (fun w e => (w.bind e.step e.output).map fun w => (w.record e).setLast e.step) .empty

/-- **An entry tells how a step ran** in a workspace, the steps of `skipped` being done without having
run. -/
structure Entry.Tells (answers : Answers) (before : Workspace) (skipped : NameSet)
    (step : Plan.Step) (e : Entry) : Prop where
  step_eq : e.step = step.name
  dependencies_eq : e.dependencies = step.dependencies.toList
  /-- The input is that of the step, with the outputs before it in place of references. -/
  input_eq : e.input = Reference.substituteMembers before.outputs step.input
  /-- The guard is that of the step, with the outputs before it in place of references … -/
  guard_eq : e.guard = step.guard.map (Reference.substitute before.outputs)
  /-- … and it holds. -/
  holds : ∀ expression, e.guard = some expression → Guard.holds expression = true
  /-- The output is what the tool of the step answers to the input. -/
  answered : ∃ action answer, action.step = step.name ∧ action.tool = step.tool ∧
    action.input = e.input ∧ answers before.history action = .ok answer ∧
      e.output = normalize answer
  /-- What the step depends on has an output or was skipped. -/
  ready : ∀ d ∈ step.dependencies.toList, d ∈ before.outputs.keys ∨ d ∈ skipped

theorem Entry.Tells.mono {answers : Answers} {before : Workspace} {skipped more : NameSet}
    {step : Plan.Step} {e : Entry} (h : e.Tells answers before skipped step)
    (hsub : ∀ name ∈ skipped, name ∈ more) : e.Tells answers before more step :=
  { h with ready := fun d hd => (h.ready d hd).imp_right (hsub d) }

/-- **A state replays its history**: its workspace is the one that the history leads to, and each
entry tells how a step of the graph ran in the workspace that the entries before it lead to. -/
structure State.Replays (answers : Answers) (g : Plan.Graph) (s : State) : Prop where
  rebuild_eq : Workspace.rebuild s.workspace.history = .ok s.workspace
  tells : ∀ earlier e later, s.workspace.history = earlier ++ e :: later →
    ∃ before, Workspace.rebuild earlier = .ok before ∧
      ∃ step ∈ g.steps, e.Tells answers before s.skipped step

section Changes
variable {answers : Answers} {g : Plan.Graph} {s : State}

theorem rebuild_concat {history : List Entry} {e : Entry} {w : Workspace}
    (h : Workspace.rebuild history = .ok w) :
    Workspace.rebuild (history ++ [e]) =
      (w.bind e.step e.output).map fun w => (w.record e).setLast e.step := by
  unfold Workspace.rebuild at h ⊢
  rw [List.foldlM_append, h]
  exact bind_pure (m := Except Error) _

/-- The guard of an action is one that holds, if the step is not refused. -/
theorem holds_of_refusal?_eq_none {step : Plan.Step} (h : s.refusal? step = none)
    {expression : String} (hguard : (s.action step).guard = some expression) :
    Guard.holds expression = true := by
  unfold State.refusal? at h
  change step.guard.map s.guardText = some expression at hguard
  rw [hguard] at h
  simpa using h

namespace State.Replays

theorem start (answers : Answers) (g : Plan.Graph) : (State.start g).Replays answers g where
  rebuild_eq := rfl
  tells earlier _ _ h := by cases earlier <;> cases h

theorem skip (h : s.Replays answers g) (name : String) : (s.skip name).Replays answers g where
  rebuild_eq := h.rebuild_eq
  tells earlier e later hsplit := by
    obtain ⟨before, hbefore, step, hstep, htells⟩ := h.tells earlier e later hsplit
    refine ⟨before, hbefore, step, hstep, htells.mono fun other hother => ?_⟩
    exact NameSet.mem_insert.mpr (Or.inr hother)

theorem activate (h : s.Replays answers g) (name : String) :
    (s.activate name).Replays answers g :=
  ⟨h.rebuild_eq, h.tells⟩

/-- **Completing a step** whose action is what a look at it finds now. -/
theorem complete (h : s.Replays answers g) (hs : Valid g s) {step : Plan.Step}
    (hstep : step ∈ g.steps) (hready : ∀ d ∈ step.dependencies.toList, d ∈ s.done)
    (hguard : s.refusal? step = none) {answer : Json}
    (hanswer : answers s.workspace.history (s.action step) = .ok answer) {next : State}
    (hnext : s.complete ((s.action step).completeWith answer) = .ok next) :
    next.Replays answers g := by
  obtain ⟨hfree, rfl⟩ := complete_eq_ok hnext
  constructor
  · refine (rebuild_concat h.rebuild_eq).trans ?_
    unfold Workspace.bind
    show Except.map _ (if s.workspace.outputs.contains step.name then _ else _) = _
    change s.workspace.outputs.contains step.name = false at hfree
    rw [hfree]
    rfl
  · intro earlier e later hsplit
    rcases Plan.split_concat hsplit with ⟨rfl, rfl⟩ | ⟨rest, hsplit⟩
    · refine ⟨s.workspace, h.rebuild_eq, step, hstep, ?_⟩
      refine
        { step_eq := rfl
          dependencies_eq := rfl
          input_eq := rfl
          guard_eq := rfl
          holds := fun _ hexpression => holds_of_refusal?_eq_none hguard hexpression
          answered := ⟨s.action step, answer, rfl, rfl, rfl, hanswer, rfl⟩
          ready := fun d hd => ?_ }
      rw [hs.keys_eq, mem_executed]
      have := hready d hd
      tauto
    · exact h.tells earlier e rest hsplit

/-- Skipping steps and handing them out changes nothing of the history. -/
theorem replay (h : s.Replays answers g) {changes : List Change}
    (hquiet : ∀ change ∈ changes, ∀ c, change ≠ .complete c) :
    (s.replay changes).Replays answers g := by
  induction changes generalizing s with
  | nil => exact h
  | cons change rest ih =>
    obtain ⟨hfirst, hrest⟩ := List.forall_mem_cons.mp hquiet
    show ((s.apply change).replay rest).Replays answers g
    cases change with
    | skip name => exact ih (h.skip name) hrest
    | activate action => exact ih (h.activate action.step) hrest
    | complete c => exact absurd rfl (hfirst c)

end State.Replays

/-! ## Sequential turns -/

theorem round_sequentialTurn_of_idle (hidle : s.frontier.pending = []) :
    (sequentialTurn answers s).round = ⟨s.frontier, [], []⟩ := by
  unfold sequentialTurn
  dsimp only
  rw [hidle]
  dsimp only
  split <;> rfl

theorem round_sequentialTurn {action : Pending} {rest : List Pending}
    (hpending : s.frontier.pending = action :: rest) :
    (sequentialTurn answers s).round = ⟨s.frontier, [action],
      (settle answers (s.frontier.state.activateAll [action]) [action]).completed⟩ := by
  unfold sequentialTurn
  dsimp only
  rw [hpending]
  rfl

/-- A step that is called on its own completes with what its tool answers, if it does. -/
theorem completed_settle_singleton (answers : Answers) (s : State) (action : Pending) :
    (settle answers s [action]).completed = [] ∨
      ∃ answer, answers s.workspace.history action = .ok answer ∧
        (settle answers s [action]).completed = [action.completeWith answer] := by
  cases hanswer : answers s.workspace.history action with
  | error reason =>
    rw [settle_of_error (receive_eq_error action hanswer)]
    exact Or.inl rfl
  | ok answer =>
    have hreceive := receive_eq_ok action hanswer
    refine Or.inr ⟨answer, rfl, ?_⟩
    cases hnext : s.complete (action.completeWith answer) with
    | error e => rw [settle_of_twice hreceive hnext]
    | ok next =>
      rw [settle_of_ok hreceive hnext]
      rfl

/-- **Completing an action** that was just handed out. -/
theorem Reached.replays_complete {changes : List Change} (hr : Reached answers g s [] changes)
    {action : Pending} (hpending : action ∈ s.frontier.pending)
    (h : (s.frontier.state.activateAll [action]).Replays answers g) {answer : Json}
    (hanswer : answers (s.frontier.state.activateAll [action]).workspace.history action =
      .ok answer) :
    ((s.frontier.state.activateAll [action]).apply
      (.complete (action.completeWith answer))).Replays answers g := by
  have hhanded := hr.handOut (List.singleton_sublist.mpr hpending)
  obtain ⟨step, hstep, rfl, hopen, hguard⟩ := hr.mem_pending.mp hpending
  have hworkspace : s.workspace = (s.frontier.state.activateAll [s.action step]).workspace := by
    rw [State.frontier_eq]
    exact (State.workspace_skipAll s _).symm
  generalize s.frontier.state.activateAll [s.action step] = now at *
  -- nothing was written since the pass, so a look at the step finds the same action
  rw [State.action_congr hworkspace step] at hanswer ⊢
  rw [State.refusal?_congr hworkspace step] at hguard
  have hactive : step.name ∈ now.activated :=
    hhanded.mem_activated.mpr ⟨_, List.mem_singleton_self _, rfl⟩
  have hready := hhanded.valid.activated_ready step hstep hactive
  unfold State.apply
  dsimp only
  split
  · rename_i next hnext
    exact h.complete hhanded.valid hstep hready hguard hanswer hnext
  · exact h

/-- Neither skips nor hand-outs complete a step. -/
theorem ne_complete_of_mem (skips : List Skip) (wave : List Pending) {change : Change}
    (h : change ∈ (skips.map fun k => Change.skip k.step) ++ wave.map Change.activate)
    (c : Completed) : change ≠ .complete c := by
  rcases List.mem_append.mp h with h | h
  · obtain ⟨k, -, rfl⟩ := List.mem_map.mp h
    exact nofun
  · obtain ⟨action, -, rfl⟩ := List.mem_map.mp h
    exact nofun

theorem ne_complete_of_completed_eq_nil {r : Round} (h : r.completed = []) {change : Change}
    (hmem : change ∈ r.changes) (c : Completed) : change ≠ .complete c := by
  unfold Round.changes at hmem
  rw [h, List.map_nil, List.append_nil] at hmem
  exact ne_complete_of_mem _ _ hmem c

/-- **Throughout a sequential turn** states replay their histories. -/
theorem Reached.replays_sequentialTurn {changes before : List Change}
    (hr : Reached answers g s [] changes) (h : s.Replays answers g)
    (hb : before <+: (sequentialTurn answers s).round.changes) :
    (s.replay before).Replays answers g := by
  cases hpending : s.frontier.pending with
  | nil =>
    rw [round_sequentialTurn_of_idle hpending] at hb
    exact h.replay fun _ hchange => ne_complete_of_completed_eq_nil rfl (hb.subset hchange)
  | cons action rest =>
    have hmem : action ∈ s.frontier.pending := hpending ▸ List.mem_cons_self
    rw [round_sequentialTurn hpending] at hb
    rcases completed_settle_singleton answers (s.frontier.state.activateAll [action]) action with
      hnone | ⟨answer, hanswer, hdone⟩
    · exact h.replay fun _ hchange => ne_complete_of_completed_eq_nil hnone (hb.subset hchange)
    · rw [hdone] at hb
      -- before the completion only skips and the hand-out of the step were made
      rcases List.prefix_concat_iff.mp hb with rfl | hb
      · have hreplay := hr.replay_of_append (List.append_assoc changes _ _ ▸
          hr.handOut (List.singleton_sublist.mpr hmem))
        have hnow := h.replay fun _ hchange =>
          ne_complete_of_mem s.frontier.skipped [action] hchange
        rw [hreplay] at hnow
        have hdone := hr.replays_complete hmem hnow hanswer
        rw [← hreplay, ← State.replay_concat] at hdone
        exact hdone
      · exact h.replay fun _ hchange => ne_complete_of_mem _ [action] (hb.subset hchange)

end Changes

/-! ## Sequential runs -/

/-- **Throughout a sequential run** states replay their histories. -/
theorem Reached.replays_drive {answers : Answers} {g : Plan.Graph} (hg : g.orderError? = none)
    {s : State} {changes : List Change} (hr : Reached answers g s [] changes)
    (h : s.Replays answers g) (completion : Completion) (wave : Nat) {before : List Change}
    (hb : before <+: (Run.drive answers completion .sequential wave s).changes) :
    (s.replay before).Replays answers g := by
  refine drive_induction (motive := fun _ s t => ∀ changes, Reached answers g s [] changes →
    s.Replays answers g → ∀ before, before <+: t.changes → (s.replay before).Replays answers g)
    ?_ ?_ ?_ wave s changes hr h before hb
  · intro wave s hnone
    cases hnone
  · intro wave s t outcome ht _ changes hr h before hb
    obtain rfl : sequentialTurn answers s = t := Option.some.inj ht
    rw [Trace.changes_after, Trace.changes_ended, List.append_nil] at hb
    exact hr.replays_sequentialTurn h hb
  · intro wave s t rest ht hgoes ih changes hr h before hb
    obtain rfl : sequentialTurn answers s = t := Option.some.inj ht
    rw [Trace.changes_after] at hb
    rcases List.prefix_or_prefix_of_prefix hb (List.prefix_append _ _) with hb | ⟨more, rfl⟩
    · exact hr.replays_sequentialTurn h hb
    · -- the moment comes after this turn
      obtain ⟨flying, hreached, hflying, -⟩ := hr.turn hg (takes_of_turn? ht)
      obtain rfl := hflying hgoes
      have hnow := hr.replays_sequentialTurn h (List.prefix_refl _)
      rw [hr.replay_of_append hreached] at hnow
      rw [State.replay_append, hr.replay_of_append hreached]
      exact ih _ hreached hnow more ((List.prefix_append_right_inj _).mp hb)

/-- **The history of a sequential run can be replayed**, in every state that the run passes through.
The outputs that its entries bind, one after another, make the workspace of the state; and each entry
tells how a step ran in the workspace that the entries before it make: with its references replaced
there, its guard holding there, and its dependencies bound there or skipped. -/
theorem sequential_history_replays {box : Toolbox} {files : Files} {content : String} {s : State}
    (h : prepare box files content = .ok s) (answers : Answers) (completion : Completion)
    {before : List Change}
    (hb : before <+: (drive answers completion .sequential 0 s).changes) :
    (s.replay before).Replays answers s.graph := by
  obtain ⟨g, rfl, hg⟩ := start_of_prepare h
  exact Reached.replays_drive hg .start (.start answers g) completion 0 hb

theorem sequential_history_replays_of_threeSteps :
    ∃ s, prepare echoing .empty threeSteps = .ok s ∧
      let changes := (sequential echoing s).changes
      changes <+: changes ∧
        (s.replay changes).Replays (.ofToolbox echoing none) s.graph := by
  obtain ⟨s, hs, -⟩ := exists_prepare_threeSteps
  exact ⟨s, hs, List.prefix_refl _,
    sequential_history_replays hs _ .declared (List.prefix_refl _)⟩

end Runbook.Run
