import Runbook.Proofs.Plan.Order
import Runbook.Proofs.Run.Change

/-!
# What holds at every moment of a run

`Valid` ties the four sets of a state, its workspace and its graph together.  Each of the three
changes that a run may make keeps it (`Valid.skip`, `Valid.activate`, `Valid.complete`), so it holds
in every state that is reached (`Reached.valid`), and with it that no step is handed out twice or
both handed out and skipped (`Reached.handedOut_nodup`, `Reached.not_mem_skipped`).
-/

namespace Runbook.Run

/-! ## The steps that ran -/

theorem mem_executed {s : State} {name : String} :
    name ∈ s.executed ↔ name ∈ s.done ∧ name ∉ s.skipped := by
  rw [State.executed, List.mem_filter]
  refine and_congr Iff.rfl ?_
  rw [Bool.not_eq_true', NameSet.contains_eq_false_iff]

theorem executed_nodup (s : State) : s.executed.Nodup :=
  s.done.nodup.filter _

theorem executed_skip {s : State} {name : String} (h : name ∉ s.done) :
    (s.skip name).executed = s.executed := by
  unfold State.executed State.skip
  rw [NameSet.toList_insert_of_not_mem h, List.filter_append]
  have hlast : ([name].filter fun step => !(s.skipped.insert name).contains step) = [] := by
    simp
  rw [hlast, List.append_nil]
  apply List.filter_congr
  intro other hother
  have hne : other ≠ name := fun heq => h (heq ▸ hother)
  rw [NameSet.contains_insert_of_ne hne]

theorem executed_complete {s next : State} {c : Completed} (hnext : s.complete c = .ok next)
    (hdone : c.step ∉ s.done) (hskipped : c.step ∉ s.skipped) :
    next.executed = s.executed ++ [c.step] := by
  rw [(complete_eq_ok hnext).2]
  unfold State.executed
  rw [NameSet.toList_insert_of_not_mem hdone, List.filter_append]
  have hlast : ([c.step].filter fun step => !s.skipped.contains step) = [c.step] := by
    simp [hskipped]
  rw [hlast]

/-- Completing a step that is done already, as one is that was skipped, changes nothing of that. -/
theorem executed_complete_of_done {s next : State} {c : Completed}
    (hnext : s.complete c = .ok next) (hdone : c.step ∈ s.done) : next.executed = s.executed := by
  rw [(complete_eq_ok hnext).2]
  unfold State.executed
  rw [NameSet.toList_insert]
  exact congrArg (List.filter _) (if_pos hdone)

/-- A step that moves to those done is not left to be done. -/
theorem left_not_done_move {s : State} (hs : ∀ name ∈ s.remaining, name ∉ s.done)
    {moved : String} : ∀ name ∈ s.remaining.erase moved, name ∉ s.done.insert moved := by
  intro name hmem hin
  obtain ⟨hne, hmem⟩ := NameSet.mem_erase.mp hmem
  exact hs name hmem ((NameSet.mem_insert.mp hin).resolve_left hne)

/-- A step without an output can be completed. -/
theorem exists_complete {s : State} {c : Completed} (h : c.step ∉ s.workspace.outputs.keys) :
    ∃ next, s.complete c = .ok next := by
  have hfree : s.workspace.outputs.contains c.step = false := by
    rw [Bool.eq_false_iff]
    exact fun hin => h (Table.contains_iff.mp hin)
  unfold State.complete Workspace.bind
  simp [hfree]

/-! ## The invariant -/

/-- **What holds of the state of a run** of a graph at every moment. -/
structure Valid (g : Plan.Graph) (s : State) : Prop where
  /-- The steps are those of the graph. -/
  names_eq : s.graph.names = g.names
  /-- Every step is left to be done or done … -/
  left_or_done : ∀ name, name ∈ g.names ↔ name ∈ s.remaining ∨ name ∈ s.done
  /-- … and not both. -/
  left_not_done : ∀ name ∈ s.remaining, name ∉ s.done
  /-- A skipped step is done. -/
  skipped_done : ∀ name ∈ s.skipped, name ∈ s.done
  /-- A step that was handed out is not done. -/
  activated_left : ∀ name ∈ s.activated, name ∈ s.remaining
  /-- No step runs twice. -/
  executed_nodup : s.executed.Nodup
  /-- The outputs are those of the steps that ran, in the same order … -/
  keys_eq : s.workspace.outputs.keys = s.executed
  /-- … and so are the entries of the history. -/
  history_eq : s.workspace.history.map Entry.step = s.executed
  /-- A step is done after the steps that it depends on. -/
  done_after : ∀ step ∈ g.steps, ∀ earlier later,
    s.done.toList = earlier ++ step.name :: later → ∀ d ∈ step.dependencies.toList, d ∈ earlier
  /-- A step that was handed out depends on steps that are done. -/
  activated_ready : ∀ step ∈ g.steps, step.name ∈ s.activated →
    ∀ d ∈ step.dependencies.toList, d ∈ s.done
  /-- The graph has the output of a step that ran. -/
  output_eq : ∀ name ∈ s.executed, ∃ step value, s.graph.find? name = some step ∧
    step.output = some value ∧ s.workspace.outputs.get? name = some value

namespace Valid
variable {g : Plan.Graph} {s : State}

theorem start (g : Plan.Graph) : Valid g (.start g) where
  names_eq := rfl
  left_or_done name := by
    show name ∈ g.names ↔ name ∈ g.names ∨ name ∈ []
    simp
  left_not_done name _ h := absurd h List.not_mem_nil
  skipped_done name h := absurd h List.not_mem_nil
  activated_left name h := absurd h List.not_mem_nil
  executed_nodup := List.nodup_nil
  keys_eq := rfl
  history_eq := rfl
  done_after step _ earlier later h := by cases earlier <;> cases h
  activated_ready step _ h := absurd h List.not_mem_nil
  output_eq name h := absurd h List.not_mem_nil

/-! A skipped and a completed step both move from the steps left to be done to those done. -/

theorem left_or_done_move (hs : Valid g s) {moved : String} (hleft : moved ∈ s.remaining)
    (name : String) :
    name ∈ g.names ↔ name ∈ s.remaining.erase moved ∨ name ∈ s.done.insert moved := by
  rw [hs.left_or_done, NameSet.mem_erase, NameSet.mem_insert]
  by_cases heq : name = moved
  · simp [heq, hleft]
  · simp [heq]

theorem activated_ready_move (hs : Valid g s) {moved : String} {step : Plan.Step}
    (hstep : step ∈ g.steps) (hactive : step.name ∈ s.activated) :
    ∀ d ∈ step.dependencies.toList, d ∈ s.done.insert moved :=
  fun d hd => NameSet.mem_insert.mpr (Or.inr (hs.activated_ready step hstep hactive d hd))

/-- The order of the done steps after one more. -/
theorem done_after_move (hs : Valid g s) {step : Plan.Step} (hstep : step ∈ g.steps)
    (hleft : step.name ∈ s.remaining) (hready : ∀ d ∈ step.dependencies.toList, d ∈ s.done) :
    ∀ other ∈ g.steps, ∀ earlier later,
      (s.done.insert step.name).toList = earlier ++ other.name :: later →
        ∀ d ∈ other.dependencies.toList, d ∈ earlier := by
  intro other hother earlier later h
  rw [NameSet.toList_insert_of_not_mem (hs.left_not_done _ hleft)] at h
  rcases Plan.split_concat h with ⟨rfl, hname⟩ | ⟨rest, hsplit⟩
  · obtain rfl := Plan.Graph.step_eq_of_name hother hstep hname
    exact hready
  · exact hs.done_after other hother earlier rest hsplit

theorem skip (hs : Valid g s) {step : Plan.Step} (hstep : step ∈ g.steps) (hopen : s.Open step) :
    Valid g (s.skip step.name) := by
  have hdone : step.name ∉ s.done := hs.left_not_done _ hopen.left
  have hexecuted := executed_skip hdone
  refine
    { names_eq := hs.names_eq
      left_or_done := hs.left_or_done_move hopen.left
      left_not_done := left_not_done_move hs.left_not_done
      skipped_done := ?_
      activated_left := ?_
      executed_nodup := Run.executed_nodup _
      keys_eq := hs.keys_eq.trans hexecuted.symm
      history_eq := hs.history_eq.trans hexecuted.symm
      done_after := hs.done_after_move hstep hopen.left hopen.ready
      activated_ready := fun _ => hs.activated_ready_move
      output_eq := hexecuted ▸ hs.output_eq }
  · intro name hname
    rcases NameSet.mem_insert.mp hname with heq | hname
    · exact NameSet.mem_insert.mpr (Or.inl heq)
    · exact NameSet.mem_insert.mpr (Or.inr (hs.skipped_done name hname))
  · intro name hname
    have hne : name ≠ step.name := fun heq => hopen.idle (heq ▸ hname)
    exact NameSet.mem_erase.mpr ⟨hne, hs.activated_left name hname⟩

theorem activate (hs : Valid g s) {step : Plan.Step} (hstep : step ∈ g.steps)
    (hopen : s.Open step) : Valid g (s.activate step.name) := by
  refine
    { hs with
      activated_left := ?_
      activated_ready := ?_ }
  · intro name hname
    rcases NameSet.mem_insert.mp hname with rfl | hname
    · exact hopen.left
    · exact hs.activated_left name hname
  · intro other hother hactive
    rcases NameSet.mem_insert.mp hactive with hname | hactive
    · obtain rfl := Plan.Graph.step_eq_of_name hother hstep hname
      exact hopen.ready
    · exact hs.activated_ready other hother hactive

/-- A graph that is filled with the outputs has them. -/
theorem output_eq_of_fill (hgraph : s.graph = g.fill s.workspace.outputs) {name : String}
    (hname : name ∈ g.names) (hkey : name ∈ s.workspace.outputs.keys) :
    ∃ step value, s.graph.find? name = some step ∧ step.output = some value ∧
      s.workspace.outputs.get? name = some value := by
  obtain ⟨step, hstep, rfl⟩ := Plan.Graph.mem_names.mp hname
  cases hvalue : s.workspace.outputs.get? step.name with
  | none => exact absurd hkey (Table.get?_eq_none_iff.mp hvalue)
  | some value =>
    refine ⟨step.fill s.workspace.outputs, value, ?_, ?_, rfl⟩
    · rw [hgraph]
      exact Plan.Graph.find?_fill.mpr ⟨step, hstep, rfl, rfl⟩
    · simp [Plan.Step.fill, hvalue]

theorem complete (hs : Valid g s) {step : Plan.Step} (hstep : step ∈ g.steps)
    (hactive : step.name ∈ s.activated) {c : Completed} {next : State}
    (hnext : s.complete c = .ok next) (hgraph : next.graph = g.fill next.workspace.outputs)
    (hname : c.step = step.name) (hentry : c.entry.step = step.name) : Valid g next := by
  -- the step was handed out, so it is left to be done and has no output yet
  have hleft : step.name ∈ s.remaining := hs.activated_left _ hactive
  have hdone : step.name ∉ s.done := hs.left_not_done _ hleft
  have hskipped : step.name ∉ s.skipped := fun h => hdone (hs.skipped_done _ h)
  have hready := hs.activated_ready step hstep hactive
  have hexecuted := executed_complete hnext (hname ▸ hdone) (hname ▸ hskipped)
  have hkeys : step.name ∉ s.workspace.outputs.keys := by
    rw [hs.keys_eq]
    exact fun h => hdone (mem_executed.mp h).1
  obtain ⟨_, hnext⟩ := complete_eq_ok hnext
  rw [hname] at hnext hexecuted
  subst hnext
  have hcovered := hs.left_or_done_move hleft
  have hkeys_eq := (Table.keys_put_of_not_mem hkeys c.output).trans
    (congrArg (· ++ [step.name]) hs.keys_eq)
  refine
    { names_eq := hgraph ▸ Plan.Graph.names_fill _
      left_or_done := hcovered
      left_not_done := left_not_done_move hs.left_not_done
      skipped_done := ?_
      activated_left := ?_
      executed_nodup := Run.executed_nodup _
      keys_eq := hkeys_eq.trans hexecuted.symm
      history_eq := ?_
      done_after := hs.done_after_move hstep hleft hready
      activated_ready := ?_
      output_eq := ?_ }
  · intro name hmem
    exact NameSet.mem_insert.mpr (Or.inr (hs.skipped_done name hmem))
  · intro name hmem
    obtain ⟨hne, hmem⟩ := NameSet.mem_erase.mp hmem
    exact NameSet.mem_erase.mpr ⟨hne, hs.activated_left name hmem⟩
  · rw [hexecuted]
    show (s.workspace.history ++ [c.entry]).map Entry.step = _
    rw [List.map_append, hs.history_eq, List.map_singleton, hentry]
  · intro other hother hmem
    exact hs.activated_ready_move hother (NameSet.mem_erase.mp hmem).2
  · intro name hmem
    refine output_eq_of_fill hgraph ((hcovered name).mpr (Or.inr (mem_executed.mp hmem).1)) ?_
    exact (hkeys_eq.trans hexecuted.symm) ▸ hmem

end Valid

/-! ## Every state that is reached is valid -/

/-- The steps in flight after one more was handed out. -/
theorem exists_mem_concat {inFlight : List Pending} {action : Pending} {name : String} :
    (∃ a ∈ inFlight ++ [action], a.step = name) ↔
      name = action.step ∨ ∃ a ∈ inFlight, a.step = name := by
  simp [or_and_right, exists_or, or_comm, eq_comm]

/-- The steps in flight after one of them has completed. -/
theorem exists_mem_filter {inFlight : List Pending} {step name : String} :
    (∃ a ∈ inFlight.filter fun a => a.step != step, a.step = name) ↔
      name ≠ step ∧ ∃ a ∈ inFlight, a.step = name := by
  simp only [List.mem_filter, bne_iff_ne]
  constructor
  · rintro ⟨a, ⟨ha, hne⟩, rfl⟩
    exact ⟨hne, a, ha, rfl⟩
  · rintro ⟨hne, a, ha, rfl⟩
    exact ⟨a, ⟨ha, hne⟩, rfl⟩

namespace Reached
variable {answers : Answers} {g : Plan.Graph} {s : State} {inFlight : List Pending}
  {changes : List Change}

/-- The steps that were handed out and are not completed are those in flight. -/
theorem mem_activated (hr : Reached answers g s inFlight changes) {name : String} :
    name ∈ s.activated ↔ ∃ action ∈ inFlight, action.step = name := by
  induction hr with
  | start => exact ⟨fun h => absurd h List.not_mem_nil, fun ⟨_, h, _⟩ => absurd h List.not_mem_nil⟩
  | skip _ _ _ _ ih => exact ih
  | @activate s _ _ step _ _ _ _ ih =>
    show name ∈ s.activated.insert step.name ↔ _
    rw [NameSet.mem_insert, ih, exists_mem_concat]
    rfl
  | @complete s next _ _ action _ _ _ _ hnext ih =>
    rw [(complete_eq_ok hnext).2]
    show name ∈ s.activated.erase action.step ↔ _
    rw [NameSet.mem_erase, ih, exists_mem_filter]

/-- An action in flight is that of a step of the graph. -/
theorem step_of_mem (hr : Reached answers g s inFlight changes) {action : Pending}
    (h : action ∈ inFlight) : ∃ step ∈ g.steps, step.name = action.step := by
  induction hr with
  | start => exact absurd h List.not_mem_nil
  | skip _ _ _ _ ih => exact ih h
  | @activate _ _ _ step _ hstep _ _ ih =>
    rcases List.mem_append.mp h with h | h
    · exact ih h
    · rw [List.mem_singleton.mp h]
      exact ⟨step, hstep, rfl⟩
  | complete _ _ _ _ ih => exact ih (List.mem_filter.mp h).1

/-- **Every state of a run is valid.** -/
theorem valid (hr : Reached answers g s inFlight changes) : Valid g s := by
  induction hr with
  | start => exact .start g
  | skip _ hstep hopen _ ih => exact ih.skip hstep hopen
  | activate _ hstep hopen _ ih => exact ih.activate hstep hopen
  | complete hr hflight hanswer hnext ih =>
    obtain ⟨step, hstep, hname⟩ := hr.step_of_mem hflight
    have hactive : step.name ∈ _ := hr.mem_activated.mpr ⟨_, hflight, hname.symm⟩
    have hgraph := (Reached.complete hr hflight hanswer hnext).graph_eq
    exact ih.complete hstep hactive hnext hgraph hname.symm hname.symm

/-- The step of an action in flight is left to be done. -/
theorem left_of_mem (hr : Reached answers g s inFlight changes) {action : Pending}
    (h : action ∈ inFlight) : action.step ∈ s.remaining :=
  hr.valid.activated_left _ (hr.mem_activated.mpr ⟨action, h, rfl⟩)

/-- A step that is left to be done has no output. -/
theorem not_mem_keys (hr : Reached answers g s inFlight changes) {name : String}
    (h : name ∈ s.remaining) : name ∉ s.workspace.outputs.keys := by
  rw [hr.valid.keys_eq]
  exact fun hin => hr.valid.left_not_done name h (mem_executed.mp hin).1

/-- An action in flight can be completed. -/
theorem complete_eq_ok_of_mem (hr : Reached answers g s inFlight changes) {action : Pending}
    (h : action ∈ inFlight) (answer : Json) :
    ∃ next, s.complete (action.completeWith answer) = .ok next :=
  exists_complete (hr.not_mem_keys (hr.left_of_mem h))

/-- When nothing is left to be done, every step is done and none is in flight. -/
theorem of_finished (hr : Reached answers g s inFlight changes) (hfinished : s.isFinished = true) :
    (∀ name, name ∈ s.done ↔ name ∈ g.names) ∧ s.activated.toList = [] := by
  have hnil : s.remaining.toList = [] := List.isEmpty_iff.mp hfinished
  have hnone : ∀ name, name ∉ s.remaining := by
    intro name hin
    change name ∈ s.remaining.toList at hin
    rw [hnil] at hin
    exact List.not_mem_nil hin
  constructor
  · intro name
    exact ((hr.valid.left_or_done name).trans (or_iff_right (hnone name))).symm
  · refine List.eq_nil_iff_forall_not_mem.mpr fun name hin => ?_
    exact hnone name (hr.valid.activated_left name hin)

/-! ## What is handed out -/

/-- The steps that were handed out are those in flight and those that ran. -/
theorem mem_handedOut (hr : Reached answers g s inFlight changes) {name : String} :
    name ∈ (handedOut changes).map Pending.step ↔ name ∈ s.activated ∨ name ∈ s.executed := by
  induction hr with
  | start => simp [handedOut, State.start, State.executed]
  | @skip s _ changes step _ hr hstep hopen _ ih =>
    rw [handedOut_concat_skip, ih, executed_skip (hr.valid.left_not_done _ hopen.left)]
    rfl
  | @activate s _ changes step hr hstep hopen _ ih =>
    show _ ↔ name ∈ s.activated.insert step.name ∨ name ∈ s.executed
    rw [handedOut_concat_activate, List.map_append, List.mem_append, ih, NameSet.mem_insert]
    show _ ∨ name ∈ [step.name] ↔ _
    rw [List.mem_singleton]
    tauto
  | @complete s next _ changes action answer hr hflight hanswer hnext ih =>
    have hactive := hr.mem_activated.mpr ⟨action, hflight, rfl⟩
    have hdone := hr.valid.left_not_done _ (hr.left_of_mem hflight)
    have hexecuted := executed_complete hnext hdone fun h => hdone (hr.valid.skipped_done _ h)
    rw [handedOut_concat_complete, ih, hexecuted, (complete_eq_ok hnext).2]
    show _ ↔ name ∈ s.activated.erase action.step ∨ name ∈ s.executed ++ [action.step]
    rw [NameSet.mem_erase, List.mem_append, List.mem_singleton]
    by_cases hname : name = action.step
    · simp [hname, hactive]
    · simp [hname]

/-- What is in flight was handed out. -/
theorem handedOut_of_mem (hr : Reached answers g s inFlight changes) {action : Pending}
    (h : action ∈ inFlight) : action ∈ handedOut changes := by
  induction hr with
  | start => exact absurd h List.not_mem_nil
  | skip _ _ _ _ ih => simpa using ih h
  | activate _ _ _ _ ih =>
    rw [handedOut_concat_activate]
    rcases List.mem_append.mp h with h | h
    · exact List.mem_append_left _ (ih h)
    · exact List.mem_append_right _ h
  | complete _ _ _ _ ih => simpa using ih (List.mem_filter.mp h).1

/-- **No step is handed out twice.** -/
theorem handedOut_nodup (hr : Reached answers g s inFlight changes) :
    ((handedOut changes).map Pending.step).Nodup := by
  induction hr with
  | start => exact List.nodup_nil
  | skip _ _ _ _ ih => simpa using ih
  | @activate s _ changes step hr hstep hopen _ ih =>
    rw [handedOut_concat_activate, List.map_append]
    refine NameSet.nodup_append_singleton ih fun h => ?_
    rcases hr.mem_handedOut.mp h with hactive | hran
    · exact hopen.idle hactive
    · exact hr.valid.left_not_done _ hopen.left (mem_executed.mp hran).1
  | complete _ _ _ _ ih => simpa using ih

/-- **No step is handed out and skipped.** -/
theorem not_mem_skipped (hr : Reached answers g s inFlight changes) {action : Pending}
    (h : action ∈ handedOut changes) : action.step ∉ s.skipped := by
  intro hskipped
  rcases hr.mem_handedOut.mp (List.mem_map_of_mem h) with hactive | hran
  · exact hr.valid.left_not_done _ (hr.valid.activated_left _ hactive)
      (hr.valid.skipped_done _ hskipped)
  · exact (mem_executed.mp hran).2 hskipped

end Reached

end Runbook.Run
