import Runbook.Proofs.Run.Invariant

/-!
# What a turn does to the state of a run

Every turn, in either mode, makes changes that a run may make (`Reached.turn`): its pass skips and
finds open steps only, one step being taken up leaves the others open, and an action that was handed
out can be completed.  While steps are left to be done in a graph with an order, one of them is open
(`Reached.exists_open`), so a turn that does nothing does not occur.
-/

namespace Runbook.Run

/-! ## Open steps stay open -/

theorem State.Open.skip {s : State} {step : Plan.Step} (h : s.Open step) {name : String}
    (hne : step.name ≠ name) : (s.skip name).Open step where
  left := NameSet.mem_erase.mpr ⟨hne, h.left⟩
  idle := h.idle
  ready d hd := NameSet.mem_insert.mpr (Or.inr (h.ready d hd))

theorem State.Open.activate {s : State} {step : Plan.Step} (h : s.Open step) {name : String}
    (hne : step.name ≠ name) : (s.activate name).Open step where
  left := h.left
  idle hin := by
    rcases NameSet.mem_insert.mp hin with heq | hin
    · exact hne heq
    · exact h.idle hin
  ready := h.ready

@[simp] theorem workspace_activateAll (s : State) (wave : List Pending) :
    (s.activateAll wave).workspace = s.workspace := by
  induction wave generalizing s with
  | nil => rfl
  | cons action rest ih => exact ih (s.activate action.step)

/-! ## The names that a pass finds -/

theorem names_refusals (s : State) (steps : List Plan.Step) :
    (s.refusals steps).map Skip.step =
      (steps.filter fun step => (s.refusal? step).isSome).map Plan.Step.name := by
  induction steps with
  | nil => rfl
  | cons step rest ih =>
    have hcons := s.refusals_append [step] rest
    rw [List.singleton_append] at hcons
    rw [hcons, List.map_append, ih]
    cases hrefusal : s.refusal? step with
    | none => simp [State.refusals, hrefusal]
    | some expression => simp [State.refusals, hrefusal]

theorem names_actions (s : State) (steps : List Plan.Step) :
    (s.actions steps).map Pending.step = (steps.filter fun step =>
      (s.refusal? step).isNone && !s.activated.contains step.name).map Plan.Step.name := by
  unfold State.actions
  rw [List.map_map]
  rfl

theorem names_readySteps (s : State) : s.readySteps.map Plan.Step.name = s.ready := by
  unfold State.readySteps
  rw [List.map_filterMap]
  refine Eq.trans (List.filterMap_congr ?_) List.filterMap_some
  intro name hname
  obtain ⟨-, step, hfind, -⟩ := State.mem_ready.mp hname
  rw [hfind, Option.map_some, Plan.Graph.name_of_find? hfind]

theorem nodup_readySteps (s : State) : (s.readySteps.map Plan.Step.name).Nodup := by
  rw [names_readySteps]
  exact s.remaining.nodup.filter _

theorem nodup_skipped (s : State) : (s.frontier.skipped.map Skip.step).Nodup := by
  rw [State.frontier_eq]
  show ((s.refusals s.readySteps).map Skip.step).Nodup
  rw [names_refusals]
  exact (nodup_readySteps s).sublist (List.filter_sublist.map _)

theorem nodup_pending (s : State) : (s.frontier.pending.map Pending.step).Nodup := by
  rw [State.frontier_eq]
  show ((s.actions s.readySteps).map Pending.step).Nodup
  rw [names_actions]
  exact (nodup_readySteps s).sublist (List.filter_sublist.map _)

/-- When a pass comes to a step, all that it changed is that it skipped steps. -/
theorem exists_skips {s : State} {earlier later : List String} {name : String}
    (h : s.ready = earlier ++ name :: later) :
    ∃ step skips, s.graph.find? name = some step ∧ s.isReady step = true ∧
      (earlier.foldl Pass.take (Pass.start s)).state = s.skipAll skips := by
  have hready : ∀ n ∈ s.ready, ∃ step, s.graph.find? n = some step ∧ s.isReady step = true :=
    fun n hn => (State.mem_ready.mp hn).2
  rw [h] at hready
  obtain ⟨step, hfind, hstep⟩ := hready name (List.mem_append_right _ List.mem_cons_self)
  have hpass := s.foldl_take earlier (fun n hn => hready n (List.mem_append_left _ hn)) [] []
  rw [State.skipAll_nil] at hpass
  exact ⟨step, _, hfind, hstep, congrArg Pass.state hpass⟩

/-- **How a run ends**: with nothing left to be done, or with the error of a tool that was called for
an action in flight. -/
inductive Ended (answers : Answers) (s : State) (flying : List Pending) : Except Error Unit → Prop
  | finished (hflying : flying = []) (hfinished : s.isFinished = true) :
    Ended answers s flying (.ok ())
  | failed {action : Pending} {reason : Tool.Error} (hmem : action ∈ flying)
    (hanswer : answers s.workspace.history action = .error reason) :
    Ended answers s flying (.error (.tool action.step action.tool reason))

namespace Reached
variable {answers : Answers} {g : Plan.Graph} {s : State} {inFlight : List Pending}
  {changes : List Change}

/-! ## The steps that a pass looks at -/

/-- The steps that a pass looks at are those of the graph that wait for nothing, with the outputs
that the plan gives them or a run before it left. -/
theorem mem_readySteps (hr : Reached answers g s inFlight changes) {filled : Plan.Step} :
    filled ∈ s.readySteps ↔ ∃ step ∈ g.steps, filled = step.fill s.workspace.outputs ∧
      step.name ∈ s.remaining ∧ ∀ d ∈ step.dependencies.toList, d ∈ s.done := by
  rw [State.mem_readySteps, State.isReady_iff]
  constructor
  · rintro ⟨hfind, hleft, hready⟩
    obtain ⟨step, hstep, -, rfl⟩ := hr.find?_eq hfind
    exact ⟨step, hstep, rfl, hleft, hready⟩
  · rintro ⟨step, hstep, rfl, hleft, hready⟩
    refine ⟨?_, hleft, hready⟩
    rw [hr.graph_eq]
    exact Plan.Graph.find?_fill.mpr ⟨step, hstep, rfl, rfl⟩

theorem mem_pending (hr : Reached answers g s inFlight changes) {action : Pending} :
    action ∈ s.frontier.pending ↔
      ∃ step ∈ g.steps, action = s.action step ∧ s.Open step ∧ s.refusal? step = none := by
  rw [State.frontier_eq]
  show action ∈ (s.readySteps.filter _).map s.action ↔ _
  simp only [List.mem_map, List.mem_filter, hr.mem_readySteps, Bool.and_eq_true,
    Option.isNone_iff_eq_none, Bool.not_eq_true', NameSet.contains_eq_false_iff]
  constructor
  · rintro ⟨_, ⟨⟨step, hstep, rfl, hleft, hready⟩, hguard, hidle⟩, rfl⟩
    exact ⟨step, hstep, rfl, ⟨hleft, hidle, hready⟩, hguard⟩
  · rintro ⟨step, hstep, rfl, hopen, hguard⟩
    exact ⟨_, ⟨⟨step, hstep, rfl, hopen.left, hopen.ready⟩, hguard, hopen.idle⟩, rfl⟩

theorem mem_skipped (hr : Reached answers g s inFlight changes) {k : Skip} :
    k ∈ s.frontier.skipped ↔ ∃ step ∈ g.steps, step.name = k.step ∧ step.name ∈ s.remaining ∧
      (∀ d ∈ step.dependencies.toList, d ∈ s.done) ∧ s.refusal? step = some k.expression := by
  rw [State.frontier_eq]
  show k ∈ s.readySteps.filterMap _ ↔ _
  simp only [List.mem_filterMap, hr.mem_readySteps, Option.map_eq_some_iff]
  constructor
  · rintro ⟨_, ⟨step, hstep, rfl, hleft, hready⟩, _, hguard, rfl⟩
    exact ⟨step, hstep, rfl, hleft, hready, hguard⟩
  · rintro ⟨step, hstep, hname, hleft, hready, hguard⟩
    exact ⟨_, ⟨step, hstep, rfl, hleft, hready⟩, k.expression, hguard, by cases k; cases hname; rfl⟩

/-! ## The changes of a turn -/

theorem skipAll (hr : Reached answers g s inFlight changes) {skips : List Skip}
    (hnodup : (skips.map Skip.step).Nodup)
    (hopen : ∀ k ∈ skips, ∃ step ∈ g.steps, step.name = k.step ∧ s.Open step ∧
      s.refusal? step = some k.expression) :
    Reached answers g (s.skipAll skips) inFlight
      (changes ++ skips.map fun k => .skip k.step) := by
  induction skips generalizing s changes with
  | nil => simpa using hr
  | cons k rest ih =>
    obtain ⟨step, hstep, hname, hthis, hguard⟩ := hopen k List.mem_cons_self
    obtain ⟨hnot, hrest⟩ := List.nodup_cons.mp hnodup
    -- skipping `k` leaves the others open, as their names differ from its name
    have hnext := Reached.skip hr hstep hthis hguard
    rw [hname] at hnext
    have h := ih hnext hrest fun k' hk' => by
      obtain ⟨other, hother, hname', hopen', hguard'⟩ := hopen k' (List.mem_cons_of_mem k hk')
      have hne : other.name ≠ k.step := fun heq =>
        hnot (heq ▸ hname' ▸ List.mem_map_of_mem hk')
      exact ⟨other, hother, hname', hopen'.skip hne, hguard'⟩
    rwa [List.append_assoc] at h

theorem activateAll (hr : Reached answers g s inFlight changes) {wave : List Pending}
    (hnodup : (wave.map Pending.step).Nodup)
    (hopen : ∀ action ∈ wave, ∃ step ∈ g.steps, action = s.action step ∧ s.Open step ∧
      s.refusal? step = none) :
    Reached answers g (s.activateAll wave) (inFlight ++ wave)
      (changes ++ wave.map .activate) := by
  induction wave generalizing s inFlight changes with
  | nil =>
    rw [List.append_nil, List.map_nil, List.append_nil]
    exact hr
  | cons action rest ih =>
    obtain ⟨step, hstep, rfl, hthis, hguard⟩ := hopen action List.mem_cons_self
    obtain ⟨hnot, hrest⟩ := List.nodup_cons.mp hnodup
    have h := ih (Reached.activate hr hstep hthis hguard) hrest fun action' haction' => by
      obtain ⟨other, hother, rfl, hopen', hguard'⟩ :=
        hopen action' (List.mem_cons_of_mem _ haction')
      have hin : other.name ∈ rest.map Pending.step :=
        List.mem_map_of_mem (f := Pending.step) haction'
      have hne : other.name ≠ step.name := by
        intro heq
        rw [heq] at hin
        exact hnot hin
      exact ⟨other, hother, rfl, hopen'.activate hne, hguard'⟩
    rwa [List.append_assoc, List.append_assoc] at h

/-- **Completing actions in flight** either completes them all or fails with the error of a tool. -/
theorem settle (hr : Reached answers g s inFlight changes) {order : List Pending}
    (hnodup : (order.map Pending.step).Nodup) (hflight : ∀ action ∈ order, action ∈ inFlight) :
    ∃ flying, Reached answers g (settle answers s order).state flying
        (changes ++ (settle answers s order).completed.map .complete) ∧
      (∀ action ∈ flying, action ∈ inFlight) ∧
      ((settle answers s order).failure = none →
        ∀ action ∈ flying, action.step ∉ order.map Pending.step) ∧
      ∀ e, (settle answers s order).failure = some e →
        Ended answers (settle answers s order).state flying (.error e) := by
  induction order generalizing s inFlight changes with
  | nil =>
    refine ⟨inFlight, by simpa [Run.settle] using hr, fun _ h => h, ?_, ?_⟩
    · exact fun _ _ _ => List.not_mem_nil
    · exact fun e he => absurd he (by simp [Run.settle])
  | cons action rest ih =>
    have hmem : action ∈ inFlight := hflight action List.mem_cons_self
    obtain ⟨hnot, hrest⟩ := List.nodup_cons.mp hnodup
    cases hanswer : answers s.workspace.history action with
    | error reason =>
      -- nothing was changed, and the action is still in flight
      rw [settle_of_error (receive_eq_error action hanswer)]
      refine ⟨inFlight, by simpa using hr, fun _ h => h, fun h => absurd h (by simp), ?_⟩
      intro e he
      obtain rfl := Option.some.inj he
      exact .failed hmem hanswer
    | ok answer =>
      have hreceive := receive_eq_ok action hanswer
      obtain ⟨next, hnext⟩ := hr.complete_eq_ok_of_mem hmem answer
      rw [settle_of_ok hreceive hnext]
      obtain ⟨flying, hreached, hsub, hall, hfailed⟩ :=
        ih (Reached.complete hr hmem hanswer hnext) hrest fun other hother => by
          have hne : other.step ≠ action.step := fun heq =>
            hnot (heq ▸ List.mem_map_of_mem hother)
          exact List.mem_filter.mpr
            ⟨hflight other (List.mem_cons_of_mem _ hother), bne_iff_ne.mpr hne⟩
      refine ⟨flying, ?_, ?_, ?_, hfailed⟩
      · rwa [List.append_assoc] at hreached
      · exact fun other hother => (List.mem_filter.mp (hsub other hother)).1
      · intro hok other hother hin
        rcases List.mem_cons.mp hin with heq | hin
        · exact bne_iff_ne.mp (List.mem_filter.mp (hsub other hother)).2 heq
        · exact hall hok other hother hin

/-! ## There is always something to do -/

/-- No step is handed out while none is in flight. -/
theorem not_mem_activated (hr : Reached answers g s [] changes) (name : String) :
    name ∉ s.activated := by
  intro hin
  obtain ⟨_, hmem, -⟩ := hr.mem_activated.mp hin
  exact List.not_mem_nil hmem

/-- **While steps are left to be done, one of them is open.** -/
theorem exists_open (hr : Reached answers g s [] changes) (hg : g.orderError? = none)
    (hleft : s.isFinished = false) : ∃ step ∈ g.steps, s.Open step := by
  obtain ⟨first, hfirst⟩ : ∃ name, name ∈ s.remaining :=
    List.exists_mem_of_ne_nil _ fun hnil => by simp [State.isFinished, NameSet.isEmpty, hnil] at hleft
  -- among the steps that are left, take one that depends on none of them
  obtain ⟨name, hname, hmin⟩ :=
    (Plan.Graph.wellFounded_dependsOn hg).has_min {n | n ∈ s.remaining} ⟨first, hfirst⟩
  obtain ⟨step, hstep, rfl⟩ :=
    Plan.Graph.mem_names.mp ((hr.valid.left_or_done name).mpr (Or.inl hname))
  refine ⟨step, hstep, hname, hr.not_mem_activated _, fun d hd => ?_⟩
  have hdep : g.DependsOn step.name d := ⟨step, hstep, rfl, hd⟩
  have hin := (hr.valid.left_or_done d).mp (Plan.Graph.mem_names_of_dependsOn hg hdep)
  exact hin.resolve_left fun hremaining => hmin d hremaining hdep

/-- A pass that finds no action makes steps done. -/
theorem done_lt_of_pending_eq_nil (hr : Reached answers g s [] changes)
    (hg : g.orderError? = none) (hleft : s.isFinished = false)
    (hidle : s.frontier.pending = []) : s.done.size < s.frontier.state.done.size := by
  obtain ⟨step, hstep, hopen⟩ := hr.exists_open hg hleft
  cases hguard : s.refusal? step with
  | none =>
    have hpending := hr.mem_pending.mpr ⟨step, hstep, rfl, hopen, hguard⟩
    rw [hidle] at hpending
    exact absurd hpending List.not_mem_nil
  | some expression =>
    have hskipped : (⟨step.name, expression⟩ : Skip) ∈ s.frontier.skipped :=
      hr.mem_skipped.mpr ⟨step, hstep, rfl, hopen.left, hopen.ready, hguard⟩
    rw [State.frontier_eq] at hskipped ⊢
    refine NameSet.size_lt_of_subset (fun n hn => State.mem_done_skipAll.mpr (Or.inl hn))
      (State.mem_done_skipAll.mpr (Or.inr ⟨_, hskipped, rfl⟩)) ?_
    exact hr.valid.left_not_done _ hopen.left

/-! ## Turns -/

/-- The pass of a state in which no step in flight is to be skipped. -/
theorem frontier_of_idle (hr : Reached answers g s inFlight changes)
    (hidle : ∀ k ∈ s.frontier.skipped, k.step ∉ s.activated) :
    Reached answers g s.frontier.state inFlight
      (changes ++ s.frontier.skipped.map fun k => .skip k.step) := by
  have hopen : ∀ k ∈ s.frontier.skipped, ∃ step ∈ g.steps, step.name = k.step ∧ s.Open step ∧
      s.refusal? step = some k.expression := by
    intro k hk
    obtain ⟨step, hstep, hname, hleft, hready, hguard⟩ := hr.mem_skipped.mp hk
    exact ⟨step, hstep, hname, ⟨hleft, hname ▸ hidle k hk, hready⟩, hguard⟩
  have h := hr.skipAll (nodup_skipped s) hopen
  rw [State.frontier_eq] at h ⊢
  exact h

/-- The actions that such a pass finds can be handed out after it. -/
theorem handOut_of_idle (hr : Reached answers g s inFlight changes)
    (hidle : ∀ k ∈ s.frontier.skipped, k.step ∉ s.activated) {wave : List Pending}
    (hsub : wave.Sublist s.frontier.pending) :
    Reached answers g (s.frontier.state.activateAll wave) (inFlight ++ wave)
      (changes ++ (s.frontier.skipped.map fun k => .skip k.step) ++ wave.map .activate) := by
  have hnodup := (nodup_pending s).sublist (hsub.map Pending.step)
  refine (hr.frontier_of_idle hidle).activateAll hnodup fun action haction => ?_
  obtain ⟨step, hstep, rfl, hopen, hguard⟩ := hr.mem_pending.mp (hsub.subset haction)
  have hleft := (State.pending_mem_remaining (hsub.subset haction)).1
  have hworkspace : s.frontier.state.workspace = s.workspace := by
    rw [State.frontier_eq]
    exact State.workspace_skipAll s _
  refine ⟨step, hstep, State.action_congr hworkspace.symm step, ⟨hleft, ?_, ?_⟩, ?_⟩
  · rw [State.frontier_eq, State.activated_skipAll]
    exact hopen.idle
  · intro d hd
    rw [State.frontier_eq]
    exact State.mem_done_skipAll.mpr (Or.inl (hopen.ready d hd))
  · rw [State.refusal?_congr hworkspace]
    exact hguard

/-- The pass of a turn: no step is in flight, so every step that is left and ready is open. -/
theorem frontier (hr : Reached answers g s [] changes) :
    Reached answers g s.frontier.state []
      (changes ++ s.frontier.skipped.map fun k => .skip k.step) :=
  hr.frontier_of_idle fun k _ => hr.not_mem_activated k.step

/-- The actions that a pass finds can be handed out after it. -/
theorem handOut (hr : Reached answers g s [] changes) {wave : List Pending}
    (hsub : wave.Sublist s.frontier.pending) :
    Reached answers g (s.frontier.state.activateAll wave) wave
      (changes ++ (s.frontier.skipped.map fun k => .skip k.step) ++ wave.map .activate) :=
  hr.handOut_of_idle (fun k _ => hr.not_mem_activated k.step) hsub

/-- **A turn makes changes that a run may make**, and ends the run only as a run may end. -/
theorem turn (hr : Reached answers g s [] changes) (hg : g.orderError? = none) {t : Turn}
    (ht : Takes answers s t) :
    ∃ flying, Reached answers g t.state flying (changes ++ t.round.changes) ∧
      (t.ending = none → flying = []) ∧
      ∀ outcome, t.ending = some outcome → Ended answers t.state flying outcome := by
  have hpass : Reached answers g s.frontier.state []
      (changes ++ (⟨s.frontier, [], []⟩ : Round).changes) := by
    simpa [Round.changes] using hr.frontier
  cases ht with
  | finish _ hfinished =>
    refine ⟨[], hpass, fun _ => rfl, ?_⟩
    intro outcome houtcome
    obtain rfl := Option.some.inj houtcome
    exact .finished rfl hfinished
  | rest hidle hleft =>
    have hlt := hr.done_lt_of_pending_eq_nil hg hleft hidle
    refine ⟨[], hpass, fun _ => rfl, ?_⟩
    -- the pass has skipped a step, so the run goes on
    intro outcome houtcome
    simp [Pass.rest, hlt] at houtcome
  | @handOut wave order hne hsub hperm =>
    have hnodup : (order.map Pending.step).Nodup :=
      (hperm.map Pending.step).nodup_iff.mpr ((nodup_pending s).sublist (hsub.map _))
    obtain ⟨flying, hreached, hmem, hok, hfailed⟩ :=
      (hr.handOut hsub).settle hnodup fun action haction => hperm.subset haction
    refine ⟨flying, ?_, ?_, ?_⟩
    · simpa [Pass.handOut, Round.changes, List.append_assoc] using hreached
    · intro hgoes
      have hnone := Option.map_eq_none_iff.mp hgoes
      refine List.eq_nil_iff_forall_not_mem.mpr fun action haction => ?_
      exact hok hnone action haction
        (List.mem_map_of_mem (hperm.mem_iff.mpr (hmem action haction)))
    · intro outcome houtcome
      obtain ⟨e, he, rfl⟩ := Option.map_eq_some_iff.mp houtcome
      exact hfailed e he

end Reached

end Runbook.Run
