import Runbook.Proofs.Plan.Wave
import Runbook.Proofs.Run.Confluence

/-!
# A concurrent run goes through the waves of its graph

The waves of a graph are known before a run, the frontier of a state only during it.  They are the
same: after `k` turns of a concurrent run the steps at depths below `k` are done and no others
(`DoneBelow`, kept by every turn), so the frontier holds the steps at depth `k`, whatever was
skipped and whatever tools gave.  A step that is skipped in the middle of a pass frees none of the
steps that the pass has yet to look at, since these were chosen before.
-/

namespace Runbook.Run

/-! ## What a pass takes up -/

/-- **A round takes up a wave**: its pass looks at the steps of the wave in order, each can be
prepared when its turn comes, and each is skipped or handed out. -/
structure Round.TakesUp (s : State) (r : Round) (wave : List String) : Prop where
  /-- The pass is over the state … -/
  pass_eq : r.pass = s.frontier
  /-- … and looks at the steps of the wave, in order. -/
  ready_eq : s.ready = wave
  /-- None of them is put off: none waits for a dependency when the pass comes to it. -/
  prepared : ∀ earlier name later, wave = earlier ++ name :: later →
    ∃ step action, s.graph.find? name = some step ∧
      (earlier.foldl Pass.take (Pass.start s)).state.prepare step = .ok action
  /-- The steps that are skipped come in the order of the wave … -/
  skipped_sublist : (r.pass.skipped.map Skip.step).Sublist wave
  /-- … and so do those that are handed out … -/
  started_sublist : (r.started.map Pending.step).Sublist wave
  /-- … and together they are the wave. -/
  taken_perm : (r.pass.skipped.map Skip.step ++ r.started.map Pending.step).Perm wave

theorem skipped_sublist_ready (s : State) :
    (s.frontier.skipped.map Skip.step).Sublist s.ready := by
  rw [State.frontier_eq]
  show ((s.refusals s.readySteps).map Skip.step).Sublist s.ready
  rw [names_refusals, ← names_readySteps]
  exact List.filter_sublist.map _

theorem pending_sublist_ready (s : State) :
    (s.frontier.pending.map Pending.step).Sublist s.ready := by
  rw [State.frontier_eq]
  show ((s.actions s.readySteps).map Pending.step).Sublist s.ready
  rw [names_actions, ← names_readySteps]
  exact List.filter_sublist.map _

/-- When a pass comes to a step, the step can be prepared, whatever was skipped before it. -/
theorem exists_prepare {s : State} {earlier later : List String} {name : String}
    (h : s.ready = earlier ++ name :: later) :
    ∃ step action, s.graph.find? name = some step ∧
      (earlier.foldl Pass.take (Pass.start s)).state.prepare step = .ok action := by
  obtain ⟨step, skips, hfind, hstep, hseen⟩ := exists_skips h
  refine ⟨step, _, hfind, State.prepare_eq_ok fun d hd => ?_⟩
  rw [hseen]
  exact State.mem_done_skipAll.mpr (Or.inl (State.isReady_iff.mp hstep d hd))

section Turns
variable {answers : Answers} {g : Plan.Graph} {s : State} {changes : List Change} {name : String}

/-- **A pass takes up every step of the frontier**, while none is in flight. -/
theorem Reached.taken_perm (hr : Reached answers g s [] changes) :
    (s.frontier.skipped.map Skip.step ++ s.frontier.pending.map Pending.step).Perm s.ready := by
  have hactions : (s.readySteps.filter fun step =>
      (s.refusal? step).isNone && !s.activated.contains step.name) =
      s.readySteps.filter fun step => !(s.refusal? step).isSome := by
    apply List.filter_congr
    intro step _
    rw [NameSet.contains_eq_false_iff.mpr (hr.not_mem_activated _)]
    simp
  rw [State.frontier_eq]
  show ((s.refusals s.readySteps).map Skip.step ++
    (s.actions s.readySteps).map Pending.step).Perm s.ready
  rw [names_refusals, names_actions, hactions, ← List.map_append, ← names_readySteps]
  exact (List.filter_append_perm _ _).map _

/-- **A turn of a concurrent run takes up the frontier.** -/
theorem Reached.takesUp (hr : Reached answers g s [] changes) {completion : Completion}
    {wave : Nat} {t : Turn} (ht : turn? answers completion .concurrent wave s = some t) :
    t.round.TakesUp s s.ready := by
  have hpass := (takes_of_turn? ht).pass_eq
  have hstarted : t.round.started = s.frontier.pending := by
    obtain ⟨-, rfl⟩ := of_turn?_concurrent ht
    by_cases hidle : s.frontier.pending = []
    · rw [concurrentTurn_of_idle hidle, hidle]
      rfl
    · rw [concurrentTurn_of_pending hidle]
      rfl
  refine ⟨hpass, rfl, fun _ _ _ => exists_prepare, ?_, ?_, ?_⟩
  · rw [hpass]
    exact skipped_sublist_ready s
  · rw [hstarted]
    exact pending_sublist_ready s
  · rw [hpass, hstarted]
    exact hr.taken_perm

/-! ## What is done after a turn -/

@[simp] theorem done_activateAll (s : State) (wave : List Pending) :
    (s.activateAll wave).done = s.done := by
  induction wave generalizing s with
  | nil => rfl
  | cons action rest ih => exact ih (s.activate action.step)

theorem mem_done_settle {order : List Pending} (hok : (settle answers s order).failure = none) :
    name ∈ (settle answers s order).state.done ↔
      name ∈ s.done ∨ name ∈ order.map Pending.step := by
  induction order generalizing s with
  | nil => simp [settle]
  | cons action rest ih =>
    cases hreceive : action.receive (answers s.workspace.history action) with
    | error e =>
      rw [settle_of_error hreceive] at hok
      cases hok
    | ok c =>
      cases hnext : s.complete c with
      | error e =>
        rw [settle_of_twice hreceive hnext] at hok
        cases hok
      | ok next =>
        rw [settle_of_ok hreceive hnext] at hok ⊢
        rw [ih hok, (complete_eq_ok hnext).2, NameSet.mem_insert, step_of_receive hreceive,
          List.map_cons, List.mem_cons]
        tauto

/-- **After a turn of a concurrent run the steps of its frontier are done**, if the run goes on. -/
theorem Reached.mem_done_turn (hr : Reached answers g s [] changes) {completion : Completion}
    {wave : Nat} {t : Turn} (ht : turn? answers completion .concurrent wave s = some t)
    (hgoes : t.ending = none) : name ∈ t.state.done ↔ name ∈ s.done ∨ name ∈ s.ready := by
  have hpass : name ∈ s.frontier.state.done ↔
      name ∈ s.done ∨ name ∈ s.frontier.skipped.map Skip.step := by
    rw [State.frontier_eq, List.mem_map]
    exact State.mem_done_skipAll
  rw [← hr.taken_perm.mem_iff, List.mem_append]
  obtain ⟨-, rfl⟩ := of_turn?_concurrent ht
  by_cases hidle : s.frontier.pending = []
  · rw [concurrentTurn_of_idle hidle, hidle]
    show name ∈ s.frontier.state.done ↔ _
    rw [hpass]
    simp
  · rw [concurrentTurn_of_pending hidle] at hgoes ⊢
    have hok := Option.map_eq_none_iff.mp hgoes
    show name ∈ (Run.settle answers _ _).state.done ↔ _
    rw [mem_done_settle hok, done_activateAll, hpass,
      ((completion.perm wave s.frontier.pending).map Pending.step).mem_iff]
    exact or_assoc

end Turns

/-! ## Turn by turn -/

/-- **The steps at depths below `k` are done, and no others.** -/
def DoneBelow (g : Plan.Graph) (s : State) (k : Nat) : Prop :=
  ∀ name, name ∈ s.done ↔ name ∈ g.names ∧ g.depth name < k

section Runs
variable {answers : Answers} {g : Plan.Graph} {s : State} {changes : List Change} {k : Nat}

/-- **The frontier is a wave.** -/
theorem Reached.ready_eq_wave (hr : Reached answers g s [] changes) (hg : g.orderError? = none)
    (hdone : DoneBelow g s k) : s.ready = g.wave k := by
  unfold State.ready Plan.Graph.wave
  rw [hr.remaining_eq, List.filter_filter]
  apply List.filter_congr
  intro name hname
  obtain ⟨step, hstep, rfl⟩ := Plan.Graph.mem_names.mp hname
  have hfind : s.graph.find? step.name = some (step.fill s.workspace.outputs) := by
    rw [hr.graph_eq]
    exact Plan.Graph.find?_fill.mpr ⟨step, hstep, rfl, rfl⟩
  have hready : s.isReady (step.fill s.workspace.outputs) = true ↔ g.depth step.name ≤ k := by
    rw [State.isReady_iff, Plan.Graph.depth_le_iff hg hstep]
    refine forall₂_congr fun d hd => ?_
    have hmem := Plan.Graph.mem_names_of_dependsOn hg ⟨step, hstep, rfl, hd⟩
    exact (hdone d).trans (and_iff_right hmem)
  have hleft : step.name ∉ s.done ↔ k ≤ g.depth step.name := by
    rw [hdone, and_iff_right hname, Nat.not_lt]
  rw [Bool.eq_iff_iff, Bool.and_eq_true, hfind, Option.any_some, hready, Bool.not_eq_true',
    NameSet.contains_eq_false_iff, hleft, beq_iff_eq]
  exact Nat.le_antisymm_iff.symm

theorem DoneBelow.start (g : Plan.Graph) : DoneBelow g (.start g) 0 := fun name =>
  iff_of_false (NameSet.not_mem_empty name) fun h => Nat.not_lt_zero _ h.2

/-- While steps are left to be done, there are steps at this depth or deeper. -/
theorem DoneBelow.lt_height (hdone : DoneBelow g s k) (hr : Reached answers g s [] changes)
    (hg : g.orderError? = none) (hleft : s.isFinished = false) : k < g.height := by
  obtain ⟨step, hstep, hopen⟩ := hr.exists_open hg hleft
  have hname := Plan.Graph.name_mem_names hstep
  refine Nat.lt_of_not_le fun hle => hr.valid.left_not_done _ hopen.left ?_
  have hbelow := (Plan.Graph.height_le_iff hg).mp hle step.name hname
  exact (hdone _).mpr ⟨hname, hbelow⟩

/-- When nothing is left to be done, there are no steps at this depth or deeper. -/
theorem DoneBelow.height_le (hdone : DoneBelow g s k) (hr : Reached answers g s [] changes)
    (hg : g.orderError? = none) (hfinished : s.isFinished = true) : g.height ≤ k := by
  refine (Plan.Graph.height_le_iff hg).mpr fun name hname => ?_
  exact ((hdone name).mp (((hr.of_finished hfinished).1 name).mpr hname)).2

/-- **A turn takes the run one depth further.** -/
theorem DoneBelow.turn (hdone : DoneBelow g s k) (hr : Reached answers g s [] changes)
    (hg : g.orderError? = none) {completion : Completion} {wave : Nat} {t : Turn}
    (ht : turn? answers completion .concurrent wave s = some t) (hgoes : t.ending = none) :
    DoneBelow g t.state (k + 1) := by
  intro name
  rw [hr.mem_done_turn ht hgoes, hr.ready_eq_wave hg hdone, hdone, Plan.Graph.mem_wave,
    ← and_or_left, Nat.lt_succ_iff_lt_or_eq]

/-- **A turn takes up the wave of its depth.** -/
theorem DoneBelow.takesUp (hdone : DoneBelow g s k) (hr : Reached answers g s [] changes)
    (hg : g.orderError? = none) {completion : Completion} {wave : Nat} {t : Turn}
    (ht : turn? answers completion .concurrent wave s = some t) :
    k < g.height ∧ t.round.TakesUp s (g.wave k) := by
  refine ⟨hdone.lt_height hr hg (of_turn?_concurrent ht).1, ?_⟩
  rw [← hr.ready_eq_wave hg hdone]
  exact hr.takesUp ht

/-- A concurrent run ends well only when it makes no further pass. -/
theorem ending_ne_ok {completion : Completion} {wave : Nat} {t : Turn}
    (ht : turn? answers completion .concurrent wave s = some t) : t.ending ≠ some (.ok ()) := by
  obtain ⟨-, rfl⟩ := of_turn?_concurrent ht
  by_cases hidle : s.frontier.pending = []
  · rw [concurrentTurn_of_idle hidle]
    unfold Pass.rest
    dsimp only
    split <;> simp
  · rw [concurrentTurn_of_pending hidle]
    unfold Pass.handOut
    simp

/-- **A concurrent run goes through the waves that are left**, one a turn. -/
theorem Reached.drive_waves (hr : Reached answers g s [] changes) (hg : g.orderError? = none)
    (completion : Completion) (hdone : DoneBelow g s k) (hk : k ≤ g.height) :
    let t := Run.drive answers completion .concurrent k s
    (∀ earlier r later, t.rounds = earlier ++ r :: later →
      k + earlier.length < g.height ∧
        r.TakesUp (s.replay (earlier.flatMap Round.changes)) (g.wave (k + earlier.length))) ∧
    (t.outcome = .ok () → k + t.rounds.length = g.height) := by
  refine drive_induction (motive := fun k s t => ∀ changes, Reached answers g s [] changes →
    DoneBelow g s k → k ≤ g.height →
    (∀ earlier r later, t.rounds = earlier ++ r :: later →
      k + earlier.length < g.height ∧
        r.TakesUp (s.replay (earlier.flatMap Round.changes)) (g.wave (k + earlier.length))) ∧
    (t.outcome = .ok () → k + t.rounds.length = g.height))
    ?_ ?_ ?_ k s changes hr hdone hk
  · intro k s hnone changes hr hdone hk
    refine ⟨fun earlier r later h => ?_, fun _ => ?_⟩
    · exact absurd h.symm (List.append_ne_nil_of_right_ne_nil _ (List.cons_ne_nil _ _))
    · exact Nat.le_antisymm hk (hdone.height_le hr hg (isFinished_of_turn?_eq_none hnone))
  · intro k s t outcome ht hend changes hr hdone hk
    refine ⟨fun earlier r later h => ?_, fun hok => ?_⟩
    · cases earlier with
      | nil =>
        obtain rfl : t.round = r := (List.cons.inj h).1
        exact hdone.takesUp hr hg ht
      | cons first more =>
        have hnil : more ++ r :: later = [] := (List.cons.inj h).2.symm
        exact absurd hnil (List.append_ne_nil_of_right_ne_nil _ (List.cons_ne_nil _ _))
    · obtain rfl : outcome = .ok () := hok
      exact absurd hend (ending_ne_ok ht)
  · intro k s t rest ht hgoes ih changes hr hdone hk
    have htakes := hdone.takesUp hr hg ht
    obtain ⟨flying, hreached, hflying, -⟩ := hr.turn hg (takes_of_turn? ht)
    obtain rfl := hflying hgoes
    obtain ⟨hrounds, hlength⟩ := ih _ hreached (hdone.turn hr hg ht hgoes) htakes.1
    refine ⟨fun earlier r later h => ?_, fun hok => ?_⟩
    · cases earlier with
      | nil =>
        obtain rfl : t.round = r := (List.cons.inj h).1
        exact htakes
      | cons first more =>
        obtain ⟨rfl, hrest⟩ : t.round = first ∧ rest.rounds = more ++ r :: later := List.cons.inj h
        have hstep : k + 1 + more.length = k + (t.round :: more).length := by
          rw [List.length_cons]
          omega
        rw [List.flatMap_cons, State.replay_append, hr.replay_of_append hreached, ← hstep]
        exact hrounds more r later hrest
    · have hthis := hlength hok
      show k + (rest.rounds.length + 1) = g.height
      omega

end Runs

/-- **A concurrent run takes up the waves of its graph**, one a pass, whatever its guards evaluate
to, its tools give and the order in which steps complete.  The pass after `k` others looks at the
steps of the wave `k`, in the order of the wave; it puts none of them off, and it skips or hands out
each.  A run that ends well makes as many passes as there are waves. -/
theorem concurrent_takes_up_waves {box : Toolbox} {files : Files} {content : String} {s : State}
    (h : prepare box files content = .ok s) (answers : Answers) (completion : Completion) :
    ∃ waves, s.graph.waves = .ok waves ∧
      let t := Run.drive answers completion .concurrent 0 s
      (∀ earlier r later, t.rounds = earlier ++ r :: later →
        ∃ wave, waves[earlier.length]? = some wave ∧
          r.TakesUp (s.replay (earlier.flatMap Round.changes)) wave) ∧
      (t.outcome = .ok () → t.rounds.length = waves.length) := by
  obtain ⟨g, rfl, hg⟩ := start_of_prepare h
  refine ⟨(List.range g.height).map g.wave, Plan.Graph.waves_eq hg, ?_⟩
  have hr : Reached answers g (.start g) [] [] := .start
  obtain ⟨hrounds, hlength⟩ := hr.drive_waves hg completion (.start g) (Nat.zero_le _)
  refine ⟨fun earlier r later hsplit => ?_, fun hok => ?_⟩
  · obtain ⟨hlt, htakes⟩ := hrounds earlier r later hsplit
    rw [Nat.zero_add] at hlt htakes
    refine ⟨g.wave earlier.length, ?_, htakes⟩
    rw [List.getElem?_map, List.getElem?_range hlt]
    rfl
  · rw [List.length_map, List.length_range, ← hlength hok]
    exact (Nat.zero_add _).symm

theorem concurrent_takes_up_waves_of_threeSteps :
    ∃ s, prepare echoing .empty threeSteps = .ok s ∧ ∃ waves, s.graph.waves = .ok waves ∧
      let t := concurrent echoing none .reversed s
      (∀ earlier r later, t.rounds = earlier ++ r :: later →
        ∃ wave, waves[earlier.length]? = some wave ∧
          r.TakesUp (s.replay (earlier.flatMap Round.changes)) wave) ∧
      (t.outcome = .ok () → t.rounds.length = waves.length) := by
  obtain ⟨s, hs, -⟩ := exists_prepare_threeSteps
  exact ⟨s, hs, concurrent_takes_up_waves hs (.ofToolbox echoing none) .reversed⟩

end Runbook.Run
