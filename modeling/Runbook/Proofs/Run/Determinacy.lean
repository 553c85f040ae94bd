import Mathlib.Logic.Relation
import Runbook.Proofs.Run.Agreement
import Runbook.Proofs.Run.Course

/-!
# What becomes of a step

In a plan whose steps refer only to steps that come before them (`Graph.RefersBack`), what a step
looks at is there when its dependencies are done, and does not change afterwards.  So in every state
of a run each done step came out as its guard and its tool have it in that very state
(`CameOut`, kept by every change), whatever was done meanwhile.

By induction along dependencies the steps that are done in two runs came out the same
(`Reached.came_out_alike`).  Nothing here mentions turns: the two runs may be sequential or
concurrent, and the guard of a step that waits may have been evaluated any number of times.
-/

namespace Runbook

/-- **Steps refer only to steps that come before them**: to those that they depend on, directly or
through others. -/
def Plan.Graph.RefersBack (g : Plan.Graph) : Prop :=
  ∀ step ∈ g.steps, ∀ r ∈ step.references, Relation.TransGen g.DependsOn step.name r.step

namespace Run

/-! ## What is done stays before what is done -/

namespace Valid
variable {g : Plan.Graph} {s : State}

theorem dependencies_done (hs : Valid g s) {step : Plan.Step} (hstep : step ∈ g.steps)
    (h : step.name ∈ s.done) : ∀ d ∈ step.dependencies.toList, d ∈ s.done := by
  intro d hd
  obtain ⟨earlier, later, hsplit⟩ := List.append_of_mem h
  have hin : d ∈ earlier := hs.done_after step hstep earlier later hsplit d hd
  show d ∈ s.done.toList
  rw [hsplit]
  exact List.mem_append_left _ hin

/-- Everything that comes before a step is done when its dependencies are. -/
theorem done_of_transGen (hs : Valid g s) {step : Plan.Step} (hstep : step ∈ g.steps)
    (hready : ∀ d ∈ step.dependencies.toList, d ∈ s.done) {name : String}
    (h : Relation.TransGen g.DependsOn step.name name) : name ∈ s.done := by
  induction h with
  | single hdep =>
    obtain ⟨other, hother, hname, hmem⟩ := hdep
    obtain rfl := Plan.Graph.step_eq_of_name hother hstep hname
    exact hready _ hmem
  | tail _ hdep ih =>
    obtain ⟨other, hother, rfl, hmem⟩ := hdep
    exact hs.dependencies_done hother ih _ hmem

theorem get?_of_skipped (hs : Valid g s) {name : String} (h : name ∈ s.skipped) :
    s.workspace.outputs.get? name = none := by
  rw [Table.get?_eq_none_iff, hs.keys_eq]
  exact fun hin => (mem_executed.mp hin).2 h

theorem get?_of_not_done (hs : Valid g s) {name : String} (h : name ∉ s.done) :
    s.workspace.outputs.get? name = none := by
  rw [Table.get?_eq_none_iff, hs.keys_eq]
  exact fun hin => h (mem_executed.mp hin).1

end Valid

/-! ## How a step came out -/

/-- The entry of a step that ran is kept under its name. -/
theorem step_of_perform {box : Toolbox} {model : Option Tool.Model} {action : Pending}
    {c : Completed} (h : action.perform box model = .ok c) : c.entry.step = action.step := by
  cases hcall : box.call action.tool action.input model with
  | ok answer =>
    obtain rfl : action.completeWith answer = c := Except.ok.inj ((perform_eq_ok hcall).symm.trans h)
    rfl
  | error e =>
    unfold Pending.perform at h
    rw [hcall] at h
    cases h

/-- **A done step came out as its guard and its tool have it** in a state: it was skipped and its
guard does not hold, or it ran and there is the output that its tool gives. -/
inductive CameOut (box : Toolbox) (model : Option Tool.Model) (s : State) (step : Plan.Step) : Prop
  | skipped {expression : String} (hguard : s.refusal? step = some expression)
    (hskipped : step.name ∈ s.skipped) : CameOut box model s step
  | ran {c : Completed} (hguard : s.refusal? step = none)
    (hperform : (s.action step).perform box model = .ok c) (hran : step.name ∉ s.skipped)
    (hentry : c.entry ∈ s.workspace.history)
    (houtput : s.workspace.outputs.get? step.name = some c.output) : CameOut box model s step

section CameOut
variable {box : Toolbox} {model : Option Tool.Model} {s t : State} {step : Plan.Step}

/-- A step still came out so in a state in which what it looks at and what it left are the same. -/
theorem CameOut.mono (h : CameOut box model s step) (hsame : SameReferences s t step)
    (hskipped : step.name ∈ t.skipped ↔ step.name ∈ s.skipped)
    (hhistory : s.workspace.history ⊆ t.workspace.history)
    (houtput : t.workspace.outputs.get? step.name = s.workspace.outputs.get? step.name) :
    CameOut box model t step := by
  cases h with
  | skipped hguard hin => exact .skipped (hsame.refusal?_eq ▸ hguard) (hskipped.mpr hin)
  | ran hguard hperform hran hentry hvalue =>
    exact .ran (hsame.refusal?_eq ▸ hguard) (hsame.action_eq ▸ hperform)
      (fun hin => hran (hskipped.mp hin)) (hhistory hentry) (houtput.trans hvalue)

/-- Of two states in which a step looks at the same, it came out alike in both. -/
theorem CameOut.alike {g : Plan.Graph} (h : CameOut box model s step) (h' : CameOut box model t step)
    (hsame : SameReferences s t step) (hs : Valid g s) (ht : Valid g t) :
    s.workspace.outputs.get? step.name = t.workspace.outputs.get? step.name ∧
      (step.name ∈ s.skipped ↔ step.name ∈ t.skipped) := by
  cases h with
  | skipped hguard hin =>
    cases h' with
    | skipped _ hin' =>
      exact ⟨(hs.get?_of_skipped hin).trans (ht.get?_of_skipped hin').symm, iff_of_true hin hin'⟩
    | ran hguard' =>
      rw [← hsame.refusal?_eq, hguard] at hguard'
      cases hguard'
  | ran hguard hperform hran _ houtput =>
    cases h' with
    | skipped hguard' =>
      rw [← hsame.refusal?_eq, hguard] at hguard'
      cases hguard'
    | ran _ hperform' hran' _ houtput' =>
      rw [← hsame.action_eq, hperform] at hperform'
      cases hperform'
      exact ⟨houtput.trans houtput'.symm, iff_of_false hran hran'⟩

/-- Completing a step that was not done changes nothing for those that refer to done steps. -/
theorem sameReferences_complete {c : Completed} {next : State} (hnext : s.complete c = .ok next)
    (hnew : c.step ∉ s.done) (hrefs : ∀ r ∈ step.references, r.step ∈ s.done) :
    SameReferences s next step := by
  intro r hr
  have hne : r.step ≠ c.step := fun heq => hnew (heq ▸ hrefs r hr)
  rw [(complete_eq_ok hnext).2]
  show _ = (Table.put s.workspace.outputs c.step c.output).get? r.step
  rw [Table.get?_put, if_neg hne]

end CameOut

/-- **What a state accounts for**: each done step came out as it has it, and the actions in flight are
those of steps that are to run in it. -/
structure Accounted (box : Toolbox) (model : Option Tool.Model) (g : Plan.Graph) (s : State)
    (inFlight : List Pending) : Prop where
  done : ∀ step ∈ g.steps, step.name ∈ s.done → CameOut box model s step
  flying : ∀ action ∈ inFlight, ∃ step ∈ g.steps, action = s.action step ∧ s.refusal? step = none

namespace Accounted
variable {box : Toolbox} {model : Option Tool.Model} {g : Plan.Graph} {s : State}
  {inFlight : List Pending}

theorem skip (h : Accounted box model g s inFlight) {step : Plan.Step} {expression : String}
    (hstep : step ∈ g.steps) (hnew : step.name ∉ s.done)
    (hguard : s.refusal? step = some expression) :
    Accounted box model g (s.skip step.name) inFlight where
  done other hother hdone := by
    rcases NameSet.mem_insert.mp hdone with hname | hdone
    · obtain rfl := Plan.Graph.step_eq_of_name hother hstep hname
      exact .skipped hguard (NameSet.mem_insert.mpr (Or.inl rfl))
    · have hne : other.name ≠ step.name := fun heq => hnew (heq ▸ hdone)
      refine (h.done other hother hdone).mono (fun _ _ => rfl) ?_ (fun _ he => he) rfl
      exact NameSet.mem_insert.trans (or_iff_right hne)
  flying := h.flying

theorem activate (h : Accounted box model g s inFlight) {step : Plan.Step} (hstep : step ∈ g.steps)
    (hguard : s.refusal? step = none) :
    Accounted box model g (s.activate step.name) (inFlight ++ [s.action step]) where
  done other hother hdone :=
    (h.done other hother hdone).mono (fun _ _ => rfl) Iff.rfl (fun _ he => he) rfl
  flying action haction := by
    rcases List.mem_append.mp haction with haction | haction
    · exact h.flying action haction
    · exact ⟨step, hstep, List.mem_singleton.mp haction, hguard⟩

theorem complete (h : Accounted box model g s inFlight) (hs : Valid g s) (hrefs : g.RefersBack)
    {action : Pending} {answer : Json} {next : State} (hflight : action ∈ inFlight)
    (hactive : ∀ a ∈ inFlight, a.step ∈ s.activated)
    (hanswer : box.call action.tool action.input model = .ok answer)
    (hnext : s.complete (action.completeWith answer) = .ok next) :
    Accounted box model g next (inFlight.filter fun a => a.step != action.step) := by
  have hleft : action.step ∈ s.remaining := hs.activated_left _ (hactive action hflight)
  have hnew : action.step ∉ s.done := hs.left_not_done _ hleft
  have hsame : ∀ step ∈ g.steps, (∀ d ∈ step.dependencies.toList, d ∈ s.done) →
      SameReferences s next step := fun step hstep hready =>
    sameReferences_complete hnext hnew fun r hr =>
      hs.done_of_transGen hstep hready (hrefs step hstep r hr)
  have hfields := (complete_eq_ok hnext).2
  have hskipped : next.skipped = s.skipped := by rw [hfields]
  have hhistory : next.workspace.history =
      s.workspace.history ++ [(action.completeWith answer).entry] := by
    rw [hfields]
    rfl
  have houtput : ∀ name, next.workspace.outputs.get? name =
      if name = action.step then some (action.completeWith answer).output
      else s.workspace.outputs.get? name := by
    intro name
    rw [hfields]
    exact Table.get?_put _ _ _ _
  constructor
  · intro other hother hdone
    rw [hfields] at hdone
    rcases NameSet.mem_insert.mp hdone with hname | hdone
    · -- the step that was completed: its action is still what a look at it finds
      obtain ⟨step, hstep, rfl, hguard⟩ := h.flying action hflight
      obtain rfl := Plan.Graph.step_eq_of_name hother hstep hname
      have hlook := hsame other hstep (hs.activated_ready other hstep (hactive _ hflight))
      have hperform : (next.action other).perform box model =
          .ok ((s.action other).completeWith answer) := by
        rw [← hlook.action_eq]
        exact perform_eq_ok hanswer
      refine .ran (hlook.refusal?_eq ▸ hguard) hperform ?_ ?_ ?_
      · rw [hskipped]
        exact fun hin => hnew (hs.skipped_done _ hin)
      · rw [hhistory]
        exact List.mem_append_right _ (List.mem_singleton.mpr rfl)
      · rw [houtput]
        exact if_pos rfl
    · have hne : other.name ≠ action.step := fun heq => hnew (heq ▸ hdone)
      refine (h.done other hother hdone).mono
        (hsame other hother (hs.dependencies_done hother hdone)) (by rw [hskipped]) ?_ ?_
      · rw [hhistory]
        exact List.subset_append_left _ _
      · rw [houtput, if_neg hne]
  · intro other hother
    obtain ⟨hother, -⟩ := List.mem_filter.mp hother
    obtain ⟨step, hstep, rfl, hguard⟩ := h.flying other hother
    have hlook := hsame step hstep (hs.activated_ready step hstep (hactive _ hother))
    exact ⟨step, hstep, hlook.action_eq, hlook.refusal?_eq ▸ hguard⟩

end Accounted

namespace Reached
variable {box : Toolbox} {model : Option Tool.Model} {g : Plan.Graph} {s t : State}
  {inFlight flying : List Pending} {changes more : List Change}

/-- **Every state of a run accounts for what is done.** -/
theorem accounted (hr : Reached (.ofToolbox box model) g s inFlight changes)
    (hrefs : g.RefersBack) : Accounted box model g s inFlight := by
  induction hr with
  | start =>
    exact ⟨fun _ _ h => absurd h List.not_mem_nil, fun _ h => absurd h List.not_mem_nil⟩
  | skip hr hstep hopen hguard ih =>
    exact ih.skip hstep (hr.valid.left_not_done _ hopen.left) hguard
  | activate _ hstep _ hguard ih => exact ih.activate hstep hguard
  | complete hr hflight hanswer hnext ih =>
    exact ih.complete hr.valid hrefs hflight
      (fun a ha => hr.mem_activated.mpr ⟨a, ha, rfl⟩) hanswer hnext

/-! ## Steps that are done in two runs -/

section TwoRuns
variable (hs : Reached (.ofToolbox box model) g s inFlight changes)
  (ht : Reached (.ofToolbox box model) g t flying more) (hg : g.orderError? = none)
  (hrefs : g.RefersBack)
include hs ht hg hrefs

/-- **A step that is done in two runs came out alike.** -/
theorem came_out_alike {name : String} (h : name ∈ s.done) (h' : name ∈ t.done) :
    s.workspace.outputs.get? name = t.workspace.outputs.get? name ∧
      (name ∈ s.skipped ↔ name ∈ t.skipped) := by
  -- what a step refers to comes before it, though not always as a direct dependency
  induction name using (Plan.Graph.wellFounded_dependsOn hg).transGen.induction with
  | _ name ih =>
    obtain ⟨step, hstep, rfl⟩ :=
      Plan.Graph.mem_names.mp ((hs.valid.left_or_done name).mpr (Or.inr h))
    have hready := hs.valid.dependencies_done hstep h
    have hready' := ht.valid.dependencies_done hstep h'
    have hsame : SameReferences s t step := by
      intro r hr
      have hbefore := hrefs step hstep r hr
      exact (ih r.step (Relation.transGen_swap.mpr hbefore)
        (hs.valid.done_of_transGen hstep hready hbefore)
        (ht.valid.done_of_transGen hstep hready' hbefore)).1
    have hdone := (hs.accounted hrefs).done step hstep h
    have hdone' := (ht.accounted hrefs).done step hstep h'
    exact hdone.alike hdone' hsame hs.valid ht.valid

theorem sameReferences {step : Plan.Step} (hstep : step ∈ g.steps)
    (hready : ∀ d ∈ step.dependencies.toList, d ∈ s.done)
    (hready' : ∀ d ∈ step.dependencies.toList, d ∈ t.done) : SameReferences s t step := by
  intro r hr
  have hbefore := hrefs step hstep r hr
  exact (hs.came_out_alike ht hg hrefs (hs.valid.done_of_transGen hstep hready hbefore)
    (ht.valid.done_of_transGen hstep hready' hbefore)).1

/-- The entries of one run are kept in another, if its steps are done there. -/
theorem history_subset (hall : ∀ name ∈ s.done, name ∈ t.done) :
    s.workspace.history ⊆ t.workspace.history := by
  intro e he
  have hin : e.step ∈ s.executed := by
    rw [← hs.valid.history_eq]
    exact List.mem_map_of_mem he
  obtain ⟨hdone, hran⟩ := mem_executed.mp hin
  obtain ⟨step, hstep, hname⟩ :=
    Plan.Graph.mem_names.mp ((hs.valid.left_or_done e.step).mpr (Or.inr hdone))
  have hdone' : step.name ∈ t.done := hname ▸ hall _ hdone
  have hsame : SameReferences s t step :=
    hs.sameReferences ht hg hrefs hstep (hs.valid.dependencies_done hstep (hname ▸ hdone))
      (ht.valid.dependencies_done hstep hdone')
  cases (hs.accounted hrefs).done step hstep (hname ▸ hdone) with
  | skipped _ hskipped => exact absurd (hname ▸ hskipped) hran
  | ran hguard hperform _ hentry =>
    -- a step has one entry, so `e` is the one that its tool gives
    have hnodup : (s.workspace.history.map Entry.step).Nodup :=
      hs.valid.history_eq ▸ hs.valid.executed_nodup
    obtain rfl := List.inj_on_of_nodup_map hnodup he hentry
      (hname.symm.trans (step_of_perform hperform).symm)
    cases (ht.accounted hrefs).done step hstep hdone' with
    | skipped hguard' =>
      rw [← hsame.refusal?_eq, hguard] at hguard'
      cases hguard'
    | ran _ hperform' _ hentry' =>
      rw [← hsame.action_eq, hperform] at hperform'
      cases hperform'
      exact hentry'

/-- **Runs that end well agree.** -/
theorem agrees_of_finished (hdone : s.isFinished = true) (hdone' : t.isFinished = true) :
    s.Agrees t := by
  have hall := (hs.of_finished hdone).1
  have hall' := (ht.of_finished hdone').1
  have hiff : ∀ name, name ∈ s.done ↔ name ∈ t.done := fun name =>
    (hall name).trans (hall' name).symm
  have hnodup : s.workspace.history.Nodup :=
    List.Nodup.of_map Entry.step (hs.valid.history_eq ▸ hs.valid.executed_nodup)
  have hnodup' : t.workspace.history.Nodup :=
    List.Nodup.of_map Entry.step (ht.valid.history_eq ▸ ht.valid.executed_nodup)
  refine ⟨hiff, ?_, ?_, ?_⟩
  · intro name
    constructor
    · intro hin
      have hdone := hs.valid.skipped_done name hin
      exact (hs.came_out_alike ht hg hrefs hdone ((hiff name).mp hdone)).2.mp hin
    · intro hin
      have hdone := ht.valid.skipped_done name hin
      exact (hs.came_out_alike ht hg hrefs ((hiff name).mpr hdone) hdone).2.mpr hin
  · intro name
    by_cases hdone : name ∈ s.done
    · exact (hs.came_out_alike ht hg hrefs hdone ((hiff name).mp hdone)).1
    · rw [hs.valid.get?_of_not_done hdone,
        ht.valid.get?_of_not_done fun h => hdone ((hiff name).mpr h)]
  · refine (List.perm_ext_iff_of_nodup hnodup hnodup').mpr fun e => ⟨?_, ?_⟩
    · exact fun he => hs.history_subset ht hg hrefs (fun name => (hiff name).mp) he
    · exact fun he => ht.history_subset hs hg hrefs (fun name => (hiff name).mpr) he

/-- **No tool fails in one run** that was done with in another: when its action was handed out, the
step was called with what it was called with there. -/
theorem call_ne_error (hdone : s.isFinished = true) {action : Pending} (hmem : action ∈ flying)
    (reason : Tool.Error) : box.call action.tool action.input model ≠ .error reason := by
  intro hcall
  -- the step came out in the first run by the call that fails in the second
  obtain ⟨step, hstep, rfl, hguard⟩ := (ht.accounted hrefs).flying action hmem
  have hname : step.name ∈ s.done :=
    ((hs.of_finished hdone).1 step.name).mpr (Plan.Graph.name_mem_names hstep)
  have hsame : SameReferences s t step :=
    hs.sameReferences ht hg hrefs hstep (hs.valid.dependencies_done hstep hname)
      (ht.valid.activated_ready step hstep (ht.mem_activated.mpr ⟨_, hmem, rfl⟩))
  cases (hs.accounted hrefs).done step hstep hname with
  | skipped hguard' =>
    rw [hsame.refusal?_eq, hguard] at hguard'
    cases hguard'
  | ran _ hperform =>
    unfold Pending.perform at hperform
    rw [hsame.action_eq, hcall] at hperform
    cases hperform

/-- **Runs end alike**: both well, in states that agree, or both by a tool. -/
theorem ended_alike {outcome outcome' : Except Error Unit}
    (hended : Ended (.ofToolbox box model) s inFlight outcome)
    (hended' : Ended (.ofToolbox box model) t flying outcome') :
    (outcome = .ok () ↔ outcome' = .ok ()) ∧ (outcome = .ok () → s.Agrees t) := by
  cases hended with
  | finished _ hdone =>
    cases hended' with
    | finished _ hdone' =>
      exact ⟨Iff.rfl, fun _ => hs.agrees_of_finished ht hg hrefs hdone hdone'⟩
    | failed hmem hcall => exact (hs.call_ne_error ht hg hrefs hdone hmem _ hcall).elim
  | failed hmem hcall =>
    cases hended' with
    | finished _ hdone' => exact (ht.call_ne_error hs hg hrefs hdone' hmem _ hcall).elim
    | failed => exact ⟨iff_of_false nofun nofun, nofun⟩

end TwoRuns

end Reached

/-- **A sequential and a concurrent run agree.**  For a plan whose steps refer only to steps that come
before them, one ends well if the other does, in whatever order waves complete; and then the same
steps are skipped, each step has the same output, and the same entries are kept. -/
theorem sequential_agrees_with_concurrent {box : Toolbox} {files : Files} {content : String}
    {s : State} (h : prepare box files content = .ok s) (hrefs : s.graph.RefersBack)
    (completion : Completion) :
    let t := sequential box s
    let u := concurrent box none completion s
    (t.outcome = .ok () ↔ u.outcome = .ok ()) ∧
      (t.outcome = .ok () → t.state.Agrees u.state) := by
  intro t u
  obtain ⟨_, hs, hended⟩ := reached_of_prepare h (.ofToolbox box none) .declared .sequential
  obtain ⟨_, ht, hended'⟩ := reached_of_prepare h (.ofToolbox box none) completion .concurrent
  exact hs.ended_alike ht (orderError?_of_prepare h) hrefs hended hended'

theorem sequential_agrees_with_concurrent_of_threeSteps :
    ∃ s, prepare echoing .empty threeSteps = .ok s ∧ s.graph.RefersBack ∧
      let t := sequential echoing s
      let u := concurrent echoing none .declared s
      (t.outcome = .ok () ↔ u.outcome = .ok ()) ∧
        (t.outcome = .ok () → t.state.Agrees u.state) := by
  obtain ⟨s, hs, hdirect⟩ := exists_prepare_threeSteps
  have hrefs : s.graph.RefersBack := fun step hstep r hr =>
    .single ⟨step, hstep, rfl, hdirect step hstep r hr⟩
  exact ⟨s, hs, hrefs, sequential_agrees_with_concurrent hs hrefs .declared⟩

end Run

end Runbook
