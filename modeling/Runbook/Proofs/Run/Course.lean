import Runbook.Proofs.Reference
import Runbook.Proofs.Run.Turn

/-!
# Whole runs

A run of a plan with an order of its steps, in either mode, makes changes that a run may make from
its first turn to its last (`Reached.drive`).  So every moment of it is valid, no tool is called twice
for a step or for a step that is skipped, and it ends when nothing is left to be done or when a tool
gives an error: it never stalls, and no step is completed twice.

A turn after which the run goes on leaves fewer steps to be done, which bounds the turns.
-/

namespace Runbook.Run

/-! ## Unfolding a run -/

section Unfolding
variable {answers : Answers} {completion : Completion} {mode : Mode} {wave : Nat} {s : State}

theorem drive_of_none (h : turn? answers completion mode wave s = none) :
    drive answers completion mode wave s = .ended s (.ok ()) := by
  rw [drive]
  split
  · rfl
  · rename_i t ht
    rw [h] at ht
    cases ht

theorem drive_of_ending {t : Turn} {outcome : Except Error Unit}
    (h : turn? answers completion mode wave s = some t) (hend : t.ending = some outcome) :
    drive answers completion mode wave s = (Trace.ended t.state outcome).after t.round := by
  rw [drive]
  split
  · rename_i ht
    rw [h] at ht
    cases ht
  · rename_i t' ht
    obtain rfl : t = t' := Option.some.inj (h.symm.trans ht)
    split
    · rename_i outcome' hend'
      rw [hend] at hend'
      cases hend'
      rfl
    · rename_i hgoes
      rw [hend] at hgoes
      cases hgoes

theorem drive_of_goes {t : Turn} (h : turn? answers completion mode wave s = some t)
    (hgoes : t.ending = none) :
    drive answers completion mode wave s =
      (drive answers completion mode (wave + 1) t.state).after t.round := by
  rw [drive]
  split
  · rename_i ht
    rw [h] at ht
    cases ht
  · rename_i t' ht
    obtain rfl : t = t' := Option.some.inj (h.symm.trans ht)
    split
    · rename_i outcome hend
      rw [hgoes] at hend
      cases hend
    · rfl

theorem isFinished_of_turn?_eq_none (h : turn? answers completion mode wave s = none) :
    s.isFinished = true := by
  cases mode with
  | sequential => cases h
  | concurrent =>
    unfold turn? at h
    by_cases hfinished : s.isFinished = true
    · exact hfinished
    · simp [hfinished] at h

/-- **What holds of runs**: what holds of a run without a turn and of one that ends with its first
turn, and is kept when a turn is put in front. -/
theorem drive_induction {motive : Nat → State → Trace → Prop}
    (none : ∀ wave s, turn? answers completion mode wave s = none →
      motive wave s (.ended s (.ok ())))
    (last : ∀ wave s t outcome, turn? answers completion mode wave s = some t →
      t.ending = some outcome → motive wave s ((Trace.ended t.state outcome).after t.round))
    (next : ∀ wave s t rest, turn? answers completion mode wave s = some t → t.ending = Option.none →
      motive (wave + 1) t.state rest → motive wave s (rest.after t.round)) (wave : Nat) (s : State) :
    motive wave s (drive answers completion mode wave s) := by
  induction hn : s.remaining.size using Nat.strongRecOn generalizing wave s with
  | ind n ih =>
    cases ht : turn? answers completion mode wave s with
    | none =>
      rw [drive_of_none ht]
      exact none wave s ht
    | some t =>
      cases hend : t.ending with
      | some outcome =>
        rw [drive_of_ending ht hend]
        exact last wave s t outcome ht hend
      | none =>
        -- the rest of the run starts with fewer steps left
        rw [drive_of_goes ht hend]
        have hlt := (takes_of_turn? ht).remaining_lt hend
        exact next wave s t _ ht hend (ih _ (hn ▸ hlt) (wave + 1) t.state rfl)

end Unfolding

/-! ## What a run does -/

section Runs
variable {answers : Answers} {completion : Completion} {mode : Mode}

/-- A run is prepared for a graph with an order, and starts with nothing done. -/
theorem start_of_prepare {box : Toolbox} {files : Files} {content : String} {s : State}
    (h : prepare box files content = .ok s) :
    ∃ g : Plan.Graph, s = .start g ∧ g.orderError? = none := by
  unfold prepare at h
  split at h
  · cases h
  · unfold prepareRecords at h
    split at h
    · cases h
    · split at h
      · cases h
      · cases h
        exact ⟨_, rfl, by assumption⟩

/-- A toolbox with one tool, which answers with its input. -/
def echoing : Toolbox where
  spec? name := if name = "t" then some ⟨"t", "", [], []⟩ else none
  call _ input _ := .ok (.object input)

/-- Three steps: two that wait for nothing, and one whose guard refers to the output of the first. -/
def threeSteps : String :=
  "- name: a\n  toolname: t\n- name: b\n  toolname: t\n" ++
    "- name: c\n  toolname: t\n  dependency: a\n  activate: $\x7ba\x7d == 1\n"

/-- A result that passes a test is there. -/
theorem exists_ok_of_any {ε α : Type} {result : Except ε α} {test : α → Bool}
    (h : result.toOption.any test = true) : ∃ a, result = .ok a ∧ test a = true := by
  cases result with
  | error e => cases h
  | ok a => exact ⟨a, rfl, h⟩

/-- What is known of a result is known of what it holds. -/
theorem exists_ok_of_map {ε α β : Type} {result : Except ε α} {f : α → β} {b : β}
    (h : result.toOption.map f = some b) : ∃ a, result = .ok a ∧ f a = b := by
  cases result with
  | error e => cases h
  | ok a => exact ⟨a, rfl, Option.some.inj h⟩

/-- A run can be prepared for the three steps, and they refer to their dependencies only. -/
theorem exists_prepare_threeSteps : ∃ s, prepare echoing .empty threeSteps = .ok s ∧
    ∀ step ∈ s.graph.steps, ∀ r ∈ step.references, r.step ∈ step.dependencies := by
  have hok : ((prepare echoing .empty threeSteps).toOption.any fun s => s.graph.steps.all fun step =>
      step.references.all fun r => step.dependencies.contains r.step) = true := by
    decide +kernel
  obtain ⟨s, hs, hall⟩ := exists_ok_of_any hok
  refine ⟨s, hs, fun step hstep r hr => ?_⟩
  have hrefs := List.all_eq_true.mp hall step hstep
  exact NameSet.contains_iff.mp (List.all_eq_true.mp hrefs r hr)

/-- **A run makes changes that a run may make**, and ends as a run may end. -/
theorem Reached.drive {g : Plan.Graph} (hg : g.orderError? = none) {s : State}
    {changes : List Change} (hr : Reached answers g s [] changes) (wave : Nat) :
    ∃ flying, Reached answers g (drive answers completion mode wave s).state flying
        (changes ++ (drive answers completion mode wave s).changes) ∧
      Ended answers (drive answers completion mode wave s).state flying
        (drive answers completion mode wave s).outcome := by
  refine drive_induction (motive := fun _ s t => ∀ changes, Reached answers g s [] changes →
    ∃ flying, Reached answers g t.state flying (changes ++ t.changes) ∧
      Ended answers t.state flying t.outcome) ?_ ?_ ?_ wave s changes hr
  · intro wave s hnone changes hr
    refine ⟨[], ?_, .finished rfl (isFinished_of_turn?_eq_none hnone)⟩
    rw [Trace.changes_ended, List.append_nil]
    exact hr
  · intro wave s t outcome ht hend changes hr
    obtain ⟨flying, hreached, -, hended⟩ := hr.turn hg (takes_of_turn? ht)
    refine ⟨flying, ?_, hended outcome hend⟩
    rw [Trace.changes_after, Trace.changes_ended, List.append_nil]
    exact hreached
  · intro wave s t rest ht hgoes ih changes hr
    obtain ⟨flying, hreached, hflying, -⟩ := hr.turn hg (takes_of_turn? ht)
    -- a turn after which the run goes on leaves nothing in flight
    obtain rfl := hflying hgoes
    obtain ⟨flying, hreached, hended⟩ := ih _ hreached
    refine ⟨flying, ?_, hended⟩
    rw [Trace.changes_after, ← List.append_assoc]
    exact hreached

theorem orderError?_of_prepare {box : Toolbox} {files : Files} {content : String} {s : State}
    (h : prepare box files content = .ok s) : s.graph.orderError? = none := by
  obtain ⟨g, rfl, hg⟩ := start_of_prepare h
  exact hg

/-- **The run of a plan** makes changes that a run may make, and ends as a run may end. -/
theorem reached_of_prepare {box : Toolbox} {files : Files} {content : String} {s : State}
    (h : prepare box files content = .ok s) (answers : Answers) (completion : Completion)
    (mode : Mode) :
    ∃ flying, Reached answers s.graph (Run.drive answers completion mode 0 s).state flying
        (Run.drive answers completion mode 0 s).changes ∧
      Ended answers (Run.drive answers completion mode 0 s).state flying
        (Run.drive answers completion mode 0 s).outcome := by
  obtain ⟨g, rfl, hg⟩ := start_of_prepare h
  exact Reached.drive hg .start 0

theorem Takes.pass_eq {s : State} {t : Turn} (ht : Takes answers s t) :
    t.round.pass = s.frontier := by
  cases ht <;> rfl

theorem Reached.replay_of_append {g : Plan.Graph} {s next : State} {flying : List Pending}
    {changes more : List Change} (hr : Reached answers g s [] changes)
    (hnext : Reached answers g next flying (changes ++ more)) : s.replay more = next := by
  have h := hnext.replay_eq
  rwa [State.replay_append, hr.replay_eq] at h

/-- **Every pass of a run is over the state that the changes before it lead to.** -/
theorem Reached.pass_eq_frontier {g : Plan.Graph} (hg : g.orderError? = none) {s : State}
    {changes : List Change} (hr : Reached answers g s [] changes) (wave : Nat)
    {earlier later : List Round} {r : Round}
    (h : (Run.drive answers completion mode wave s).rounds = earlier ++ r :: later) :
    r.pass = (s.replay (earlier.flatMap Round.changes)).frontier := by
  refine drive_induction (motive := fun _ s t => ∀ changes, Reached answers g s [] changes →
    ∀ earlier, t.rounds = earlier ++ r :: later →
      r.pass = (s.replay (earlier.flatMap Round.changes)).frontier)
    ?_ ?_ ?_ wave s changes hr earlier h
  · intro wave s _ changes _ earlier h
    exact absurd h.symm (List.append_ne_nil_of_right_ne_nil _ (List.cons_ne_nil _ _))
  · intro wave s t outcome ht _ changes _ earlier h
    cases earlier with
    | nil =>
      obtain rfl : t.round = r := (List.cons.inj h).1
      exact (takes_of_turn? ht).pass_eq
    | cons first more =>
      have hnil : more ++ r :: later = [] := (List.cons.inj h).2.symm
      exact absurd hnil (List.append_ne_nil_of_right_ne_nil _ (List.cons_ne_nil _ _))
  · intro wave s t rest ht hgoes ih changes hr earlier h
    cases earlier with
    | nil =>
      obtain rfl : t.round = r := (List.cons.inj h).1
      exact (takes_of_turn? ht).pass_eq
    | cons first more =>
      obtain ⟨rfl, hrest⟩ : t.round = first ∧ rest.rounds = more ++ r :: later := List.cons.inj h
      obtain ⟨flying, hreached, hflying, -⟩ := hr.turn hg (takes_of_turn? ht)
      obtain rfl := hflying hgoes
      rw [List.flatMap_cons, State.replay_append, hr.replay_of_append hreached]
      exact ih _ hreached more hrest

/-- Every round of the run of a plan starts in a state of the run, and its pass is over that state. -/
theorem reached_round {box : Toolbox} {files : Files} {content : String} {s : State}
    (h : prepare box files content = .ok s) {earlier later : List Round} {r : Round}
    (hrounds : (Run.drive answers completion mode 0 s).rounds = earlier ++ r :: later) :
    (∃ flying, Reached answers s.graph (s.replay (earlier.flatMap Round.changes)) flying
      (earlier.flatMap Round.changes)) ∧
      r.pass = (s.replay (earlier.flatMap Round.changes)).frontier := by
  obtain ⟨_, hreached, -⟩ := reached_of_prepare h answers completion mode
  obtain ⟨g, rfl, hg⟩ := start_of_prepare h
  refine ⟨hreached.of_prefix ?_, Reached.pass_eq_frontier hg .start 0 hrounds⟩
  unfold Trace.changes
  rw [hrounds, List.flatMap_append]
  exact List.prefix_append _ _

/-- A run makes at most one pass more than there are steps left to be done. -/
theorem length_rounds_le (s : State) (wave : Nat) :
    (drive answers completion mode wave s).rounds.length ≤ s.remaining.size + 1 := by
  refine drive_induction (motive := fun _ s t => t.rounds.length ≤ s.remaining.size + 1)
    ?_ ?_ ?_ wave s
  · intro wave s _
    exact Nat.zero_le _
  · intro wave s t outcome _ _
    exact Nat.le_add_left 1 _
  · intro wave s t rest ht hgoes ih
    have hlt := (takes_of_turn? ht).remaining_lt hgoes
    show rest.rounds.length + 1 ≤ _
    omega

/-- **At every moment of a run the state is valid**, no step was handed out twice, and none that was
handed out is skipped.  The moments of a run are those between two of its changes: what its passes
see, and the state at its end, are found by making these changes again.  A run that ends well has
done every step of the graph. -/
theorem valid_at_every_moment {box : Toolbox} {files : Files} {content : String} {s : State}
    (h : prepare box files content = .ok s) (answers : Answers) (completion : Completion)
    (mode : Mode) :
    let t := Run.drive answers completion mode 0 s
    (∀ before, before <+: t.changes →
      Valid s.graph (s.replay before) ∧ ((handedOut before).map Pending.step).Nodup ∧
        ∀ action ∈ handedOut before, action.step ∉ (s.replay before).skipped) ∧
    (∀ earlier r later, t.rounds = earlier ++ r :: later →
      r.pass = (s.replay (earlier.flatMap Round.changes)).frontier) ∧
    t.state = s.replay t.changes ∧
    (t.outcome = .ok () → (∀ name, name ∈ t.state.done ↔ name ∈ s.graph.names) ∧
      t.state.activated.toList = []) := by
  intro t
  obtain ⟨flying, hreached, hended⟩ := reached_of_prepare h answers completion mode
  obtain ⟨g, rfl, hg⟩ := start_of_prepare h
  have hr : Reached answers g (.start g) [] [] := .start
  refine ⟨?_, ?_, ?_, ?_⟩
  · intro before hbefore
    obtain ⟨inFlight, hmoment⟩ := hreached.of_prefix hbefore
    exact ⟨hmoment.valid, hmoment.handedOut_nodup, fun _ => hmoment.not_mem_skipped⟩
  · intro earlier r later hrounds
    exact hr.pass_eq_frontier hg 0 hrounds
  · exact (hr.replay_of_append hreached).symm
  · intro hok
    rw [hok] at hended
    cases hended with
    | finished _ hfinished => exact hreached.of_finished hfinished

theorem valid_at_every_moment_of_threeSteps :
    ∃ s, prepare echoing .empty threeSteps = .ok s ∧
      let t := Run.drive (.ofToolbox echoing none) .declared .concurrent 0 s
      (∀ before, before <+: t.changes →
        Valid s.graph (s.replay before) ∧ ((handedOut before).map Pending.step).Nodup ∧
          ∀ action ∈ handedOut before, action.step ∉ (s.replay before).skipped) ∧
      t.state = s.replay t.changes := by
  obtain ⟨s, hs, -⟩ := exists_prepare_threeSteps
  obtain ⟨hvalid, -, hend, -⟩ :=
    valid_at_every_moment hs (.ofToolbox echoing none) .declared .concurrent
  exact ⟨s, hs, hvalid, hend⟩

/-- **A run neither stalls nor goes on for ever.**  However tools answer and guards evaluate, and in
whatever order steps complete, it ends well or with the error that a tool gave for a step that was
handed out, after at most one pass more than the graph has steps. -/
theorem ends_well_or_by_tool {box : Toolbox} {files : Files} {content : String} {s : State}
    (h : prepare box files content = .ok s) (answers : Answers) (completion : Completion)
    (mode : Mode) :
    let t := Run.drive answers completion mode 0 s
    (t.outcome = .ok () ∨ ∃ action ∈ handedOut t.changes, ∃ reason,
      answers t.state.workspace.history action = .error reason ∧
        t.outcome = .error (.tool action.step action.tool reason)) ∧
    t.rounds.length ≤ s.graph.size + 1 := by
  intro t
  obtain ⟨flying, hreached, hended⟩ := reached_of_prepare h answers completion mode
  constructor
  · change Ended answers t.state flying t.outcome at hended
    generalize t.outcome = outcome at hended
    cases hended with
    | finished => exact Or.inl rfl
    | @failed action reason hmem hanswer =>
      exact Or.inr ⟨action, hreached.handedOut_of_mem hmem, reason, hanswer, rfl⟩
  · obtain ⟨g, rfl, -⟩ := start_of_prepare h
    have hsize : (State.start g).remaining.size = g.size := List.length_map _
    have hle : t.rounds.length ≤ (State.start g).remaining.size + 1 := length_rounds_le _ 0
    rwa [hsize] at hle

theorem ends_well_or_by_tool_of_threeSteps :
    ∃ s, prepare echoing .empty threeSteps = .ok s ∧
      let t := Run.drive (.ofToolbox echoing none) .declared .sequential 0 s
      (t.outcome = .ok () ∨ ∃ action ∈ handedOut t.changes, ∃ reason,
        echoing.call action.tool action.input none = .error reason ∧
          t.outcome = .error (.tool action.step action.tool reason)) ∧
      t.rounds.length ≤ s.graph.size + 1 := by
  obtain ⟨s, hs, -⟩ := exists_prepare_threeSteps
  exact ⟨s, hs, ends_well_or_by_tool hs (.ofToolbox echoing none) .declared .sequential⟩

end Runs

end Runbook.Run
