import Runbook.Proofs.Run.Determinacy

/-!
# Passes while steps are in flight

A run makes no pass while steps are in flight.  Whoever works with the state itself may: a state is
*served* by passes, each of which hands out all that it finds, and by completions of steps in flight,
in any order (`Served`).

However a state is served, no step is returned twice, whatever is in flight can be completed, and the
outputs are those of the steps whose tools ran, in order of completion (`Served.keeps`).  But a pass
looks at the guard of a step before it asks whether the step is in flight.  So a step whose guard
does not hold any more is skipped while its tool runs, and does not count as one that ran
(`skipped_in_flight`).  This cannot happen if no guard refers to a step that may run beside its own
(`Plan.Graph.GuardsInOrder`): then the changes are those of a run (`Served.reached`).
-/

namespace Runbook

/-- **Guards refer to no step that may run beside theirs**: what a guard refers to comes before its
step, or after it, or is no other step of the graph. -/
def Plan.Graph.GuardsInOrder (g : Plan.Graph) : Prop :=
  ∀ step ∈ g.steps, ∀ guard, step.guard = some guard → ∀ r ∈ Reference.inText guard,
    r.step ∈ g.names → r.step = step.name ∨ Relation.TransGen g.DependsOn step.name r.step ∨
      Relation.TransGen g.DependsOn r.step step.name

namespace Run

/-- **The states that a state is served to**, each with the actions that passes returned, those of
them in flight, and the steps whose tools ran, in order of completion. -/
inductive Served (answers : Answers) (start : State) :
    State → List Pending → List Pending → List String → Prop
  | start : Served answers start start [] [] []
  | pass {s : State} {returned flying : List Pending} {ran : List String}
    (hs : Served answers start s returned flying ran) :
    Served answers start (s.frontier.state.activateAll s.frontier.pending)
      (returned ++ s.frontier.pending) (flying ++ s.frontier.pending) ran
  | complete {s : State} {returned flying : List Pending} {ran : List String} {action : Pending}
    {answer : Json} (hs : Served answers start s returned flying ran) (hflight : action ∈ flying)
    (hanswer : answers s.workspace.history action = .ok answer) :
    Served answers start (s.apply (.complete (action.completeWith answer))) returned
      (flying.filter fun a => a.step != action.step) (ran ++ [action.step])

/-! ## However a state is served -/

/-- **What a state keeps** of the actions returned, those in flight and the steps that ran. -/
structure State.Keeps (s : State) (returned flying : List Pending) (ran : List String) : Prop where
  activated_iff : ∀ name, name ∈ s.activated ↔ ∃ action ∈ flying, action.step = name
  /-- What was returned is in flight or ran … -/
  returned_iff : ∀ name, name ∈ returned.map Pending.step ↔ name ∈ s.activated ∨ name ∈ ran
  /-- … and not both. -/
  not_ran : ∀ name ∈ s.activated, name ∉ ran
  returned_nodup : (returned.map Pending.step).Nodup
  keys_eq : s.workspace.outputs.keys = ran
  left_not_done : ∀ name ∈ s.remaining, name ∉ s.done
  done_iff : ∀ name, name ∈ s.done ↔ name ∈ ran ∨ name ∈ s.skipped
  executed_eq : s.executed = ran.filter fun name => !s.skipped.contains name

namespace State.Keeps
variable {s : State} {returned flying : List Pending} {ran : List String}

theorem start (g : Plan.Graph) : (State.start g).Keeps [] [] [] := by
  constructor <;> simp [State.start, State.executed, Workspace.empty, Table.keys]

theorem not_ran_of_left (hs : s.Keeps returned flying ran) {name : String}
    (hleft : name ∈ s.remaining) : name ∉ ran :=
  fun hran => hs.left_not_done name hleft ((hs.done_iff name).mpr (Or.inl hran))

/-- Skipping a step that is left to be done, whether it is in flight or not. -/
theorem skip (hs : s.Keeps returned flying ran) {moved : String} (hleft : moved ∈ s.remaining) :
    (s.skip moved).Keeps returned flying ran where
  activated_iff := hs.activated_iff
  returned_iff := hs.returned_iff
  not_ran := hs.not_ran
  returned_nodup := hs.returned_nodup
  keys_eq := hs.keys_eq
  left_not_done := left_not_done_move hs.left_not_done
  done_iff name := by
    show name ∈ s.done.insert moved ↔ name ∈ ran ∨ name ∈ s.skipped.insert moved
    rw [NameSet.mem_insert, NameSet.mem_insert, hs.done_iff, or_left_comm]
  executed_eq := by
    rw [executed_skip (hs.left_not_done _ hleft), hs.executed_eq]
    apply List.filter_congr
    intro name hname
    have hne : name ≠ moved := fun heq => hs.not_ran_of_left hleft (heq ▸ hname)
    show (!s.skipped.contains name) = !(s.skipped.insert moved).contains name
    rw [NameSet.contains_insert_of_ne hne]

theorem activate (hs : s.Keeps returned flying ran) {action : Pending}
    (hleft : action.step ∈ s.remaining) (hidle : action.step ∉ s.activated) :
    (s.activate action.step).Keeps (returned ++ [action]) (flying ++ [action]) ran := by
  have hran := hs.not_ran_of_left hleft
  refine { hs with activated_iff := ?_, returned_iff := ?_, not_ran := ?_, returned_nodup := ?_ }
  · intro name
    show name ∈ s.activated.insert action.step ↔ _
    rw [NameSet.mem_insert, hs.activated_iff, exists_mem_concat]
  · intro name
    show _ ↔ name ∈ s.activated.insert action.step ∨ name ∈ ran
    rw [List.map_append, List.mem_append, hs.returned_iff, NameSet.mem_insert]
    show _ ∨ name ∈ [action.step] ↔ _
    rw [List.mem_singleton]
    tauto
  · intro name hname
    rcases NameSet.mem_insert.mp hname with rfl | hname
    · exact hran
    · exact hs.not_ran name hname
  · rw [List.map_append]
    refine NameSet.nodup_append_singleton hs.returned_nodup fun hin => ?_
    exact ((hs.returned_iff _).mp hin).elim hidle hran

/-- A step in flight counts as one that ran when it completes, unless it was skipped meanwhile. -/
theorem executed_complete (hs : s.Keeps returned flying ran) {c : Completed} {next : State}
    (hran : c.step ∉ ran) (hnext : s.complete c = .ok next) :
    next.executed = (ran ++ [c.step]).filter fun name => !s.skipped.contains name := by
  rw [List.filter_append, ← hs.executed_eq]
  by_cases hdone : c.step ∈ s.done
  · have hskipped := ((hs.done_iff _).mp hdone).resolve_left hran
    rw [executed_complete_of_done hnext hdone]
    simp [hskipped]
  · have hskipped : c.step ∉ s.skipped := fun h => hdone ((hs.done_iff _).mpr (Or.inr h))
    rw [Run.executed_complete hnext hdone hskipped]
    simp [hskipped]

theorem complete (hs : s.Keeps returned flying ran) {action : Pending} {answer : Json}
    {next : State} (hflight : action ∈ flying)
    (hnext : s.complete (action.completeWith answer) = .ok next) :
    next.Keeps returned (flying.filter fun a => a.step != action.step) (ran ++ [action.step]) := by
  have hactive : action.step ∈ s.activated := (hs.activated_iff _).mpr ⟨action, hflight, rfl⟩
  have hran := hs.not_ran _ hactive
  have hexecuted := hs.executed_complete hran hnext
  have hfree : action.step ∉ s.workspace.outputs.keys := hs.keys_eq ▸ hran
  obtain ⟨-, rfl⟩ := complete_eq_ok hnext
  refine
    { activated_iff := ?_
      returned_iff := ?_
      not_ran := ?_
      returned_nodup := hs.returned_nodup
      keys_eq := (Table.keys_put_of_not_mem hfree _).trans (congrArg (· ++ [action.step]) hs.keys_eq)
      left_not_done := left_not_done_move hs.left_not_done
      done_iff := ?_
      executed_eq := hexecuted }
  · intro name
    show name ∈ s.activated.erase action.step ↔ _
    rw [NameSet.mem_erase, hs.activated_iff, exists_mem_filter]
  · intro name
    show _ ↔ name ∈ s.activated.erase action.step ∨ name ∈ ran ++ [action.step]
    rw [hs.returned_iff, NameSet.mem_erase, List.mem_append, List.mem_singleton]
    by_cases heq : name = action.step
    · simp [heq, hactive]
    · simp [heq]
  · intro name hname hin
    obtain ⟨hne, hname⟩ := NameSet.mem_erase.mp hname
    rcases List.mem_append.mp hin with hin | hin
    · exact hs.not_ran name hname hin
    · exact hne (List.mem_singleton.mp hin)
  · intro name
    show name ∈ s.done.insert action.step ↔ name ∈ ran ++ [action.step] ∨ name ∈ s.skipped
    rw [NameSet.mem_insert, hs.done_iff, List.mem_append, List.mem_singleton]
    tauto

theorem skipAll (hs : s.Keeps returned flying ran) {skips : List Skip}
    (hnodup : (skips.map Skip.step).Nodup) (hleft : ∀ k ∈ skips, k.step ∈ s.remaining) :
    (s.skipAll skips).Keeps returned flying ran := by
  induction skips generalizing s with
  | nil => exact hs
  | cons k rest ih =>
    obtain ⟨hnot, hrest⟩ := List.nodup_cons.mp hnodup
    obtain ⟨hthis, hothers⟩ := List.forall_mem_cons.mp hleft
    refine ih (hs.skip hthis) hrest fun k' hk' => NameSet.mem_erase.mpr ⟨?_, hothers k' hk'⟩
    exact fun heq => hnot (heq ▸ List.mem_map_of_mem hk')

theorem activateAll (hs : s.Keeps returned flying ran) {wave : List Pending}
    (hnodup : (wave.map Pending.step).Nodup)
    (hopen : ∀ action ∈ wave, action.step ∈ s.remaining ∧ action.step ∉ s.activated) :
    (s.activateAll wave).Keeps (returned ++ wave) (flying ++ wave) ran := by
  induction wave generalizing s returned flying with
  | nil =>
    rw [List.append_nil, List.append_nil]
    exact hs
  | cons action rest ih =>
    obtain ⟨hnot, hrest⟩ := List.nodup_cons.mp hnodup
    obtain ⟨⟨hleft, hidle⟩, hothers⟩ := List.forall_mem_cons.mp hopen
    have h := ih (hs.activate hleft hidle) hrest fun other hother => ⟨(hothers other hother).1, ?_⟩
    · rwa [List.append_assoc, List.append_assoc] at h
    · intro hin
      rcases NameSet.mem_insert.mp hin with heq | hin
      · exact hnot (heq ▸ List.mem_map_of_mem hother)
      · exact (hothers other hother).2 hin

/-- **A pass** may skip steps in flight, and returns none of them. -/
theorem pass (hs : s.Keeps returned flying ran) :
    (s.frontier.state.activateAll s.frontier.pending).Keeps (returned ++ s.frontier.pending)
      (flying ++ s.frontier.pending) ran := by
  have hskips : ∀ k ∈ s.frontier.skipped, k.step ∈ s.remaining := by
    intro k hk
    rw [State.frontier_eq] at hk
    obtain ⟨step, hready, hk⟩ := List.mem_filterMap.mp hk
    obtain ⟨expression, -, rfl⟩ := Option.map_eq_some_iff.mp hk
    exact (State.mem_readySteps.mp hready).2.1
  have hpass : s.frontier.state.Keeps returned flying ran := by
    have h := hs.skipAll (nodup_skipped s) hskips
    rw [State.frontier_eq] at h ⊢
    exact h
  refine hpass.activateAll (nodup_pending s) fun action haction =>
    ⟨(State.pending_mem_remaining haction).1, ?_⟩
  rw [State.frontier_eq] at haction ⊢
  rw [State.activated_skipAll]
  obtain ⟨step, hstep, rfl⟩ := List.mem_map.mp haction
  have hidle := (Bool.and_eq_true _ _ ▸ (List.mem_filter.mp hstep).2).2
  exact NameSet.contains_eq_false_iff.mp (Bool.not_eq_true' _ ▸ hidle)

/-- Whatever is in flight can be completed. -/
theorem exists_complete (hs : s.Keeps returned flying ran) {action : Pending}
    (hflight : action ∈ flying) (answer : Json) :
    ∃ next, s.complete (action.completeWith answer) = .ok next := by
  have hactive : action.step ∈ s.activated := (hs.activated_iff _).mpr ⟨action, hflight, rfl⟩
  exact Run.exists_complete (hs.keys_eq ▸ hs.not_ran _ hactive)

end State.Keeps

theorem Served.keeps {answers : Answers} {g : Plan.Graph} {s : State} {returned flying : List Pending}
    {ran : List String} (hs : Served answers (.start g) s returned flying ran) :
    s.Keeps returned flying ran := by
  induction hs with
  | start => exact .start g
  | pass _ ih => exact ih.pass
  | complete _ hflight _ ih =>
    obtain ⟨next, hnext⟩ := ih.exists_complete hflight _
    rw [State.apply_complete hnext]
    exact ih.complete hflight hnext

/-! ## Guards that refer to no step beside theirs -/

namespace Reached
variable {answers : Answers} {g : Plan.Graph} {s : State} {inFlight : List Pending}
  {changes : List Change}

/-- Of two steps in flight neither comes before the other. -/
theorem not_transGen_of_activated (hr : Reached answers g s inFlight changes) {step : Plan.Step}
    (hstep : step ∈ g.steps) (hactive : step.name ∈ s.activated) {name : String}
    (hname : name ∈ s.activated) : ¬ Relation.TransGen g.DependsOn step.name name := by
  intro hbefore
  have hdone := hr.valid.done_of_transGen hstep (hr.valid.activated_ready step hstep hactive) hbefore
  exact hr.valid.left_not_done _ (hr.valid.activated_left _ hname) hdone

/-- **The guard of a step in flight** is not touched when another step completes. -/
theorem refusal?_complete (hg : g.GuardsInOrder) (hr : Reached answers g s inFlight changes)
    {step : Plan.Step} (hstep : step ∈ g.steps) (hactive : step.name ∈ s.activated)
    {c : Completed} (hother : c.step ∈ s.activated) (hne : step.name ≠ c.step) {next : State}
    (hnext : s.complete c = .ok next) : next.refusal? step = s.refusal? step := by
  obtain ⟨action, hflight, haction⟩ := hr.mem_activated.mp hother
  obtain ⟨other, hin, hname⟩ := hr.step_of_mem hflight
  rw [haction] at hname
  refine refusal?_congr_guard fun guard hguard r hr' => ?_
  rw [(complete_eq_ok hnext).2]
  show (Table.put s.workspace.outputs c.step c.output).get? r.step = _
  rw [Table.get?_put, if_neg]
  intro heq
  -- were the guard to refer to the other step, one of the two would come before the other
  have hnames : r.step ∈ g.names := heq ▸ hname ▸ Plan.Graph.name_mem_names hin
  rcases hg step hstep guard hguard r hr' hnames with hself | hbefore | hafter
  · exact hne (hself ▸ heq)
  · exact hr.not_transGen_of_activated hstep hactive (heq ▸ hother) hbefore
  · rw [heq, ← hname] at hafter
    exact hr.not_transGen_of_activated hin (hname ▸ hother) hactive hafter

end Reached

/-- **A state that is served makes changes that a run may make**, if guards refer to no step that may
run beside theirs: the guard of every step in flight still holds. -/
theorem Served.reached {answers : Answers} {g : Plan.Graph} (hg : g.GuardsInOrder) {s : State}
    {returned flying : List Pending} {ran : List String}
    (hs : Served answers (.start g) s returned flying ran) :
    ∃ changes, Reached answers g s flying changes ∧
      ∀ step ∈ g.steps, step.name ∈ s.activated → s.refusal? step = none := by
  induction hs with
  | start => exact ⟨[], .start, fun _ _ h => absurd h (NameSet.not_mem_empty _)⟩
  | @pass s _ flying _ _ ih =>
    obtain ⟨changes, hr, hholds⟩ := ih
    have hidle : ∀ k ∈ s.frontier.skipped, k.step ∉ s.activated := by
      intro k hk hactive
      obtain ⟨step, hstep, hname, -, -, hguard⟩ := hr.mem_skipped.mp hk
      rw [hholds step hstep (hname ▸ hactive)] at hguard
      cases hguard
    have hreached := hr.handOut_of_idle hidle (List.Sublist.refl _)
    refine ⟨_, hreached, fun step hstep hactive => ?_⟩
    have hworkspace : (s.frontier.state.activateAll s.frontier.pending).workspace = s.workspace := by
      rw [State.frontier_eq, workspace_activateAll, State.workspace_skipAll]
    rw [State.refusal?_congr hworkspace]
    obtain ⟨action, haction, hname⟩ := hreached.mem_activated.mp hactive
    rcases List.mem_append.mp haction with hflight | hpending
    · exact hholds step hstep (hr.mem_activated.mpr ⟨action, hflight, hname⟩)
    · obtain ⟨other, hother, rfl, -, hguard⟩ := hr.mem_pending.mp hpending
      obtain rfl := Plan.Graph.step_eq_of_name hother hstep hname
      exact hguard
  | @complete s _ flying _ action answer _ hflight hanswer ih =>
    obtain ⟨changes, hr, hholds⟩ := ih
    obtain ⟨next, hnext⟩ := hr.complete_eq_ok_of_mem hflight answer
    rw [State.apply_complete hnext]
    refine ⟨_, .complete hr hflight hanswer hnext, fun step hstep hactive => ?_⟩
    have hother := hr.mem_activated.mpr ⟨action, hflight, rfl⟩
    have hsplit := hactive
    rw [(complete_eq_ok hnext).2] at hsplit
    obtain ⟨hne, hactive⟩ := NameSet.mem_erase.mp hsplit
    rw [hr.refusal?_complete hg hstep hactive hother hne hnext]
    exact hholds step hstep hactive

/-- **What holds however a state of a plan is served.**  No step is returned twice, whatever is in
flight can be completed, the outputs are those of the steps whose tools ran, in order of completion,
and the steps counted as run are those of them that were not skipped.  If guards refer to no step that
may run beside theirs, none of them was. -/
theorem served_in_any_order {box : Toolbox} {files : Files} {content : String} {start : State}
    (h : prepare box files content = .ok start) {answers : Answers} {s : State}
    {returned flying : List Pending} {ran : List String}
    (hs : Served answers start s returned flying ran) :
    (returned.map Pending.step).Nodup ∧
      (∀ action ∈ flying, ∀ answer, ∃ next, s.complete (action.completeWith answer) = .ok next) ∧
      s.workspace.outputs.keys = ran ∧
      (s.executed = ran.filter fun name => !s.skipped.contains name) ∧
      (start.graph.GuardsInOrder →
        (∀ action ∈ returned, action.step ∉ s.skipped) ∧
          (∀ name ∈ s.workspace.outputs.keys, name ∉ s.skipped) ∧ s.executed = ran) := by
  obtain ⟨g, rfl, -⟩ := start_of_prepare h
  have hkeeps := hs.keeps
  refine ⟨hkeeps.returned_nodup, fun _ hflight => hkeeps.exists_complete hflight, hkeeps.keys_eq,
    hkeeps.executed_eq, fun hg => ?_⟩
  obtain ⟨changes, hr, -⟩ := hs.reached hg
  have hran : s.executed = ran := hr.valid.keys_eq.symm.trans hkeeps.keys_eq
  refine ⟨fun action haction hskipped => ?_, fun name hname => ?_, hran⟩
  · have hdone := hr.valid.skipped_done _ hskipped
    rcases (hkeeps.returned_iff _).mp (List.mem_map_of_mem haction) with hactive | hin
    · exact hr.valid.left_not_done _ (hr.valid.activated_left _ hactive) hdone
    · exact (mem_executed.mp (hran ▸ hin)).2 hskipped
  · rw [hr.valid.keys_eq] at hname
    exact (mem_executed.mp hname).2

/-- The first pass over the three steps finds the two that wait for nothing. -/
theorem pending_threeSteps : ((prepare echoing .empty threeSteps).toOption.map fun start =>
    start.frontier.pending.map Pending.step) = some ["a", "b"] := by
  decide +kernel

theorem served_in_any_order_of_threeSteps :
    ∃ start, prepare echoing .empty threeSteps = .ok start ∧ start.graph.GuardsInOrder ∧
      ∃ s returned flying, Served (.ofToolbox echoing none) start s returned flying ["b"] ∧
        flying.map Pending.step = ["a"] ∧ (∀ action ∈ returned, action.step ∉ s.skipped) ∧
          s.executed = ["b"] := by
  obtain ⟨start, hstart, hrefs⟩ := exists_prepare_threeSteps
  obtain ⟨start', hstart', hpending⟩ := exists_ok_of_map pending_threeSteps
  rw [hstart] at hstart'
  cases hstart'
  obtain ⟨a, others, hsplit, ha, hothers⟩ := List.map_eq_cons_iff.mp hpending
  obtain ⟨b, none, rfl, hb, hnone⟩ := List.map_eq_cons_iff.mp hothers
  obtain rfl := List.map_eq_nil_iff.mp hnone
  have horder : start.graph.GuardsInOrder := by
    intro step hstep guard hguard r hr _
    refine Or.inr (Or.inl (.single ⟨step, hstep, rfl, hrefs step hstep r ?_⟩))
    rw [Plan.Step.references, hguard]
    exact List.mem_append_right _ hr
  -- the second of the two steps completes first
  have hserved : Served (.ofToolbox echoing none) start _ _ _ _ :=
    .complete (.pass .start) (hsplit ▸ by simp : b ∈ [] ++ start.frontier.pending) rfl
  obtain ⟨-, -, -, -, hrun⟩ := served_in_any_order hstart hserved
  obtain ⟨hnot, -, hexecuted⟩ := hrun horder
  rw [List.nil_append, hb] at hserved hexecuted
  refine ⟨start, hstart, horder, _, _, _, hserved, ?_, hnot, hexecuted⟩
  rw [hsplit]
  simp [ha, hb]

/-- Two steps that do not wait for each other, the guard of the first asking whether the second has no
output yet. -/
def guardedBySibling : String :=
  "- name: a\n  toolname: t\n  activate: '\"$\x7bb\x7d\" == \"no value\"'\n" ++
    "- name: b\n  toolname: t\n"

/-- What becomes of the first of two steps that are handed out, if a pass comes between the completion
of the second and its own. -/
def afterSibling (start : State) (a b : Pending) : State :=
  let now := (start.frontier.state.activateAll [a, b]).apply
    (.complete (b.completeWith (.object b.input)))
  (now.frontier.state.activateAll now.frontier.pending).apply
    (.complete (a.completeWith (.object a.input)))

theorem served_guardedBySibling :
    ((prepare echoing .empty guardedBySibling).toOption.map fun start =>
      match start.frontier.pending with
      | [a, b] =>
        let s := afterSibling start a b
        (a.step, b.step, s.skipped.toList, s.workspace.outputs.keys, s.executed)
      | _ => ("", "", [], [], [])) = some ("a", "b", ["a"], ["b", "a"], ["b"]) := by
  decide +kernel

/-- **A step is skipped while its tool runs**, and has an output nevertheless: its guard holds when it
is handed out, and not any more when a pass comes by after the other step has completed.  It does not
count as a step that ran. -/
theorem skipped_in_flight : ∃ start, prepare echoing .empty guardedBySibling = .ok start ∧
    ∃ s returned flying, Served (.ofToolbox echoing none) start s returned flying ["b", "a"] ∧
      "a" ∈ returned.map Pending.step ∧ "a" ∈ s.skipped ∧ "a" ∈ s.workspace.outputs.keys ∧
        s.executed = ["b"] := by
  obtain ⟨start, hstart, hserved⟩ := exists_ok_of_map served_guardedBySibling
  dsimp only at hserved
  split at hserved
  · rename_i a b hpending
    simp only [Prod.mk.injEq] at hserved
    obtain ⟨ha, hb, hskipped, hkeys, hexecuted⟩ := hserved
    have hne : a.step != b.step := by simp [ha, hb]
    have hfirst : Served (.ofToolbox echoing none) start
        (start.frontier.state.activateAll [a, b]) [a, b] [a, b] [] := by
      have h : Served (.ofToolbox echoing none) start _ _ _ _ := .pass .start
      rw [hpending] at h
      exact h
    have hbetween := (hfirst.complete (by simp : b ∈ [a, b]) rfl).pass
    have hlast : Served _ _ (afterSibling start a b) _ _ _ :=
      hbetween.complete (List.mem_append_left _ (by simp [hne] : a ∈ [a, b].filter _)) rfl
    rw [ha, hb] at hlast
    refine ⟨start, hstart, _, _, _, hlast, ?_, ?_, ?_, hexecuted⟩
    · simp [ha]
    · show "a" ∈ (afterSibling start a b).skipped.toList
      simp [hskipped]
    · simp [hkeys]
  · simp at hserved

end Run

end Runbook
