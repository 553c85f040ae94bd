import Runbook.CommandLine
import Runbook.Proofs.Log.Append
import Runbook.Proofs.Run.Course

/-!
# What a log tells of its run

The events of a run are those of its passes and completions, in order, and each of these makes one
step done.  So between the first event of a log and its last there is one event for each step that is
done, in the order in which the steps were done, and it tells what the state at the end of the run
says of that step (`log_replays_run`).  This holds as well of runs that a tool ended.

What running a plan does to the files is to append these events to its log, one after another
(`files_runWith`), and nothing if the plan cannot be prepared.
-/

namespace Runbook

namespace Run

/-- The steps that a row of changes makes done, in order. -/
def doneSteps (changes : List Change) : List String :=
  changes.filterMap fun
    | .skip step => some step
    | .activate _ => none
    | .complete c => some c.step

theorem doneSteps_append (changes more : List Change) :
    doneSteps (changes ++ more) = doneSteps changes ++ doneSteps more :=
  List.filterMap_append

theorem doneSteps_changes (t : Trace) : doneSteps t.changes =
    t.rounds.flatMap fun r => r.pass.skipped.map Skip.step ++ r.completed.map Completed.step := by
  unfold doneSteps Trace.changes
  rw [List.filterMap_flatMap]
  congr 1
  funext r
  simp [Round.changes, List.filterMap_append, List.filterMap_map]

namespace Reached
variable {answers : Answers} {g : Plan.Graph} {s : State} {inFlight : List Pending}
  {changes : List Change}

/-- **Each skip and each completion makes one step done.** -/
theorem done_eq (hr : Reached answers g s inFlight changes) :
    s.done.toList = doneSteps changes := by
  induction hr with
  | start => rfl
  | skip hr _ hopen _ ih =>
    have hnew := hr.valid.left_not_done _ hopen.left
    rw [doneSteps_append, ← ih]
    exact NameSet.toList_insert_of_not_mem hnew
  | activate _ _ _ _ ih =>
    rw [doneSteps_append, ← ih]
    exact (List.append_nil _).symm
  | complete hr hflight _ hnext ih =>
    rw [doneSteps_append, ← ih, (complete_eq_ok hnext).2]
    exact NameSet.toList_insert_of_not_mem (hr.valid.left_not_done _ (hr.left_of_mem hflight))

/-- What was skipped stays skipped. -/
theorem mem_skipped_of_skip (hr : Reached answers g s inFlight changes) {name : String}
    (h : .skip name ∈ changes) : name ∈ s.skipped := by
  induction hr with
  | start => exact absurd h List.not_mem_nil
  | skip _ _ _ _ ih =>
    rcases List.mem_append.mp h with h | h
    · exact NameSet.mem_insert.mpr (Or.inr (ih h))
    · cases List.mem_singleton.mp h
      exact NameSet.mem_insert.mpr (Or.inl rfl)
  | activate _ _ _ _ ih =>
    rcases List.mem_append.mp h with h | h
    · exact ih h
    · cases List.mem_singleton.mp h
  | complete _ _ _ hnext ih =>
    rw [(complete_eq_ok hnext).2]
    rcases List.mem_append.mp h with h | h
    · exact ih h
    · cases List.mem_singleton.mp h

/-- What a step left stays bound. -/
theorem get?_of_complete (hr : Reached answers g s inFlight changes) {c : Completed}
    (h : .complete c ∈ changes) : s.workspace.outputs.get? c.step = some c.output := by
  induction hr with
  | start => exact absurd h List.not_mem_nil
  | skip _ _ _ _ ih =>
    rcases List.mem_append.mp h with h | h
    · exact ih h
    · cases List.mem_singleton.mp h
  | activate _ _ _ _ ih =>
    rcases List.mem_append.mp h with h | h
    · exact ih h
    · cases List.mem_singleton.mp h
  | @complete s next _ _ action answer hr hflight _ hnext ih =>
    have hnew := hr.not_mem_keys (hr.left_of_mem hflight)
    rw [(complete_eq_ok hnext).2]
    show (Table.put s.workspace.outputs action.step _).get? c.step = _
    rw [Table.get?_put]
    rcases List.mem_append.mp h with h | h
    · have hne : c.step ≠ action.step := fun heq => by
        have hbound := ih h
        rw [heq, Table.get?_eq_none_iff.mpr hnew] at hbound
        cases hbound
      rw [if_neg hne]
      exact ih h
    · cases List.mem_singleton.mp h
      exact if_pos rfl

/-- When nothing is left to be done, every step of the graph ran or was skipped. -/
theorem length_executed_add (hr : Reached answers g s inFlight changes)
    (hfinished : s.isFinished = true) : s.executed.length + s.skipped.size = g.size := by
  have hdone : s.done.toList.Perm g.names :=
    (List.perm_ext_iff_of_nodup s.done.nodup g.names_nodup).mpr (hr.of_finished hfinished).1
  have hskipped : (s.done.toList.filter s.skipped.contains).Perm s.skipped.toList := by
    refine (List.perm_ext_iff_of_nodup (s.done.nodup.filter _) s.skipped.nodup).mpr fun name => ?_
    rw [List.mem_filter, NameSet.contains_iff]
    exact and_iff_right_of_imp (hr.valid.skipped_done name)
  have hsplit := List.length_eq_length_filter_add (l := s.done.toList) s.skipped.contains
  have hsize : g.size = g.names.length := (List.length_map _).symm
  rw [hsize, ← hdone.length_eq, hsplit, hskipped.length_eq, Nat.add_comm]
  rfl

end Reached

/-- Without a language model, a toolbox answers alike in both modes. -/
theorem course_eq_drive (box : Toolbox) (mode : Mode) (s : State) :
    course box none .declared mode s = drive (.ofToolbox box none) .declared mode 0 s := by
  cases mode <;> rfl

end Run

namespace Log

/-- **The event of a step that is done**, in a state of a run of a graph: that it was skipped, its
guard having become an expression that does not hold, or that it completed, with its tool and the
digest of its output. -/
inductive Tells (clock : Clock) (g : Plan.Graph) (s : Run.State) : String → Event → Prop
  | skipped {name expression : String} (hskipped : name ∈ s.skipped)
    (hrefused : Guard.holds expression = false) :
    Tells clock g s name (.stepSkipped clock.run name expression)
  | completed {step : Plan.Step} {v : Json} (hstep : step ∈ g.steps) (hran : step.name ∉ s.skipped)
    (hbound : s.workspace.outputs.get? step.name = some v) :
    Tells clock g s step.name (.stepCompleted clock.run step.name step.tool
      (clock.stepSeconds step.name) (Digest.ofValue v))

/-- **The event of the end of a run** of a graph. -/
inductive Closes (clock : Clock) (g : Plan.Graph) (t : Run.Trace) : Event → Prop
  | completed {executed skipped : Nat} (hok : t.outcome = .ok ())
    (hexecuted : executed = t.state.executed.length) (hskipped : skipped = t.state.skipped.size)
    (hall : executed + skipped = g.size) :
    Closes clock g t (.runCompleted clock.run executed skipped clock.totalSeconds)
  | failed {e : Run.Error} (herror : t.outcome = .error e) :
    Closes clock g t (.runFailed clock.run e.message)

/-- **Events replay a run**: it starts, the steps that are done come in order, and it ends. -/
def Replays (clock : Clock) (content : String) (mode : Run.Mode) (g : Plan.Graph) (t : Run.Trace)
    (events : List Event) : Prop :=
  ∃ steps closing,
    events = .runStarted clock.run (Digest.ofText content) mode g.size version :: steps ++ [closing] ∧
      List.Forall₂ (Tells clock g t.state) t.state.done.toList steps ∧ Closes clock g t closing

section Events
variable {answers : Run.Answers} {clock : Clock} {g : Plan.Graph} {s : Run.State} {t : Run.Trace}
  {flying : List Run.Pending}

/-- A skip of a pass has an expression that does not hold. -/
theorem holds_eq_false_of_mem {k : Run.Skip} (h : k ∈ s.frontier.skipped) :
    Guard.holds k.expression = false := by
  rw [Run.State.frontier_eq] at h
  obtain ⟨step, -, hk⟩ := List.mem_filterMap.mp h
  obtain ⟨expression, hrefusal, rfl⟩ := Option.map_eq_some_iff.mp hk
  simpa using (Option.filter_eq_some_iff.mp hrefusal).2

/-- **The events of a round** tell of the steps that it made done. -/
theorem tells_roundEvents (hr : Run.Reached answers g t.state flying t.changes) {r : Run.Round}
    (hmem : r ∈ t.rounds) (hpass : r.pass = s.frontier) :
    List.Forall₂ (Tells clock g t.state)
      (r.pass.skipped.map Run.Skip.step ++ r.completed.map Run.Completed.step)
      (roundEvents clock g r) := by
  have hchange : ∀ change ∈ r.changes, change ∈ t.changes := fun change hchange =>
    List.mem_flatMap.mpr ⟨r, hmem, hchange⟩
  have hskipped : ∀ k ∈ r.pass.skipped, Tells clock g t.state k.step (skipEvent clock k) := by
    intro k hk
    refine .skipped (hr.mem_skipped_of_skip (hchange _ ?_)) (holds_eq_false_of_mem (hpass ▸ hk))
    exact List.mem_append_left _ (List.mem_append_left _ (List.mem_map_of_mem hk))
  have hcompleted : ∀ c ∈ r.completed,
      Tells clock g t.state c.step (completionEvent clock g c) := by
    intro c hc
    have hbound := hr.get?_of_complete
      (hchange _ (List.mem_append_right _ (List.mem_map_of_mem hc)))
    have hran : c.step ∈ t.state.executed := by
      rw [← hr.valid.keys_eq]
      by_contra hnot
      rw [Table.get?_eq_none_iff.mpr hnot] at hbound
      cases hbound
    obtain ⟨hdone, hnot⟩ := Run.mem_executed.mp hran
    obtain ⟨step, hstep, hname⟩ :=
      Plan.Graph.mem_names.mp ((hr.valid.left_or_done c.step).mpr (Or.inr hdone))
    unfold completionEvent
    rw [Plan.Graph.find?_eq_some_iff.mpr ⟨hstep, hname⟩, ← hname]
    exact .completed hstep (hname ▸ hnot) (hname ▸ hbound)
  unfold roundEvents
  refine List.rel_append ?_ ?_
  · rw [List.forall₂_map_left_iff, List.forall₂_map_right_iff]
    exact List.forall₂_same.mpr hskipped
  · rw [List.forall₂_map_left_iff, List.forall₂_map_right_iff]
    exact List.forall₂_same.mpr hcompleted

theorem closes_closingEvent (hr : Run.Reached answers g t.state flying t.changes)
    (hended : Run.Ended answers t.state flying t.outcome) :
    Closes clock g t (closingEvent clock t) := by
  unfold closingEvent
  split
  · rename_i hok
    rw [hok] at hended
    cases hended with
    | finished _ hfinished =>
      exact .completed hok rfl rfl (hr.length_executed_add hfinished)
  · rename_i e herror
    exact .failed herror

end Events

/-- **The events of a run replay it**, in either mode, for every order of completion and however tools
answer. -/
theorem replays_events {box : Toolbox} {files : Files} {content : String} {s : Run.State}
    (h : Run.prepare box files content = .ok s) (clock : Clock) (answers : Run.Answers)
    (completion : Run.Completion) (mode : Run.Mode) :
    let t := Run.drive answers completion mode 0 s
    Replays clock content mode s.graph t (events clock content mode s t) := by
  intro t
  obtain ⟨flying, hr, hended⟩ := Run.reached_of_prepare h answers completion mode
  refine ⟨_, _, rfl, ?_, closes_closingEvent hr hended⟩
  rw [hr.done_eq, Run.doneSteps_changes]
  -- round by round, the steps made done and their events
  have hround : ∀ r ∈ t.rounds, List.Forall₂ (Tells clock s.graph t.state)
      (r.pass.skipped.map Run.Skip.step ++ r.completed.map Run.Completed.step)
      (roundEvents clock s.graph r) := by
    intro r hmem
    obtain ⟨earlier, later, hrounds⟩ := List.append_of_mem hmem
    exact tells_roundEvents hr hmem (Run.reached_round h hrounds).2
  rw [List.flatMap_def, List.flatMap_def]
  refine List.rel_flatten ?_
  rw [List.forall₂_map_left_iff, List.forall₂_map_right_iff]
  exact List.forall₂_same.mpr hround

section RunWith
variable {box : Toolbox} {files : Files} {content : String}

/-- A plan that cannot be prepared leaves the files as they are. -/
theorem files_runWith_of_error {e : Run.Error} (h : Run.prepare box files content = .error e)
    (clock : Clock) (policy : Run.Policy) (log : Option String) :
    (CommandLine.runWith clock files content box policy log).files = files := by
  unfold CommandLine.runWith
  rw [h]
  rfl

/-- **What running a plan does to the files**: the events of the run are appended to its log. -/
theorem files_runWith {s : Run.State} (h : Run.prepare box files content = .ok s) (clock : Clock)
    (policy : Run.Policy) (path : String) :
    (CommandLine.runWith clock files content box policy (some path)).files =
      appendAll clock path 0 files (events clock content (CommandLine.modeOf policy) s
        (Run.drive (.ofToolbox box none) .declared (CommandLine.modeOf policy) 0 s)) := by
  unfold CommandLine.runWith
  rw [h, ← Run.course_eq_drive]
  dsimp only
  split <;> rfl

end RunWith

/-- **The log of a run replays it.**  Running a plan that can be prepared appends the events of the run
to its log.  The events of a run replay it: in either mode, for every order of completion and however
tools answer.  If every one of them can be appended, the log holds what it held before and then a line
for each.  A plan that cannot be prepared appends nothing. -/
theorem log_replays_run (box : Toolbox) (files : Files) (content : String) (clock : Clock) :
    (∀ e, Run.prepare box files content = .error e → ∀ policy log,
      (CommandLine.runWith clock files content box policy log).files = files) ∧
    ∀ s, Run.prepare box files content = .ok s →
      (∀ policy path,
        let mode := CommandLine.modeOf policy
        let t := Run.drive (.ofToolbox box none) .declared mode 0 s
        (CommandLine.runWith clock files content box policy (some path)).files =
          appendAll clock path 0 files (events clock content mode s t)) ∧
      ∀ answers completion mode,
        let t := Run.drive answers completion mode 0 s
        Replays clock content mode s.graph t (events clock content mode s t) ∧
        ∀ path tree after, Appends clock path 0 tree (events clock content mode s t) after →
          appendAll clock path 0 tree (events clock content mode s t) = after ∧
          ∃ made, tree.makeDirectories ((Files.parent? path).getD "") = .ok made ∧
            after.read path = .ok (((clock.lines 0 (events clock content mode s t)).map
              Line.written).foldl Files.Content.append (made.held path)) := by
  refine ⟨fun e h policy log => files_runWith_of_error h clock policy log, fun s h => ⟨?_, ?_⟩⟩
  · exact fun policy path => files_runWith h clock policy path
  · intro answers completion mode t
    refine ⟨replays_events h clock answers completion mode, fun path tree after happends => ?_⟩
    exact ⟨happends.appendAll_eq, happends.read_eq⟩

/-- A run of which nothing is known but its name. -/
def plainClock : Clock where
  run := "r"
  stepSeconds _ := .zero
  totalSeconds := .zero
  stamp _ := ""

theorem names_runJsonl : Files.names "run.jsonl" = ["run.jsonl"] := by
  decide +kernel

theorem exists_append_empty (l : Line) : ∃ next, append .empty "run.jsonl" l = .ok next := by
  simp [append, Files.parent?, names_runJsonl, Files.dropIdle, Files.makeDirectories, Files.append,
    Files.update, Files.resolve, Files.walk, Files.origin, Files.find?, Files.root, Files.empty]

/-- A concurrent run of three steps leaves a new log, which holds a line for each of its events. -/
theorem log_replays_run_of_threeSteps :
    ∃ s, Run.prepare Run.echoing .empty Run.threeSteps = .ok s ∧
      let t := Run.concurrent Run.echoing none .declared s
      let events := events plainClock Run.threeSteps .concurrent s t
      Replays plainClock Run.threeSteps .concurrent s.graph t events ∧
      ∃ after, Appends plainClock "run.jsonl" 0 .empty events after ∧
        (CommandLine.runWith plainClock .empty Run.threeSteps Run.echoing .standard
          (some "run.jsonl")).files = after ∧
        after.read "run.jsonl" = .ok (((plainClock.lines 0 events).map Line.written).foldl
          Files.Content.append (.text "")) := by
  obtain ⟨s, hs, -⟩ := Run.exists_prepare_threeSteps
  obtain ⟨-, haccepted⟩ := log_replays_run Run.echoing .empty Run.threeSteps plainClock
  obtain ⟨hfiles, hruns⟩ := haccepted s hs
  obtain ⟨hreplays, hlog⟩ := hruns (.ofToolbox Run.echoing none) .declared .concurrent
  obtain ⟨next, hfirst⟩ := exists_append_empty _
  obtain ⟨after, happends⟩ := exists_appends_of_append plainClock 0 hfirst _
  obtain ⟨hafter, made, hmade, hread⟩ := hlog "run.jsonl" .empty after happends
  have hparent : Files.parent? "run.jsonl" = some "" := by decide +kernel
  have hempty : Files.empty.held "run.jsonl" = .text "" := by
    simp [Files.held, Files.read, Files.entry, Files.resolve, names_runJsonl, Files.walk,
      Files.origin, Files.find?, Files.root, Files.empty]
  rw [hparent] at hmade
  obtain rfl : Files.empty = made := Except.ok.inj hmade
  rw [hempty] at hread
  exact ⟨s, hs, hreplays, after, happends, (hfiles .standard "run.jsonl").trans hafter, hread⟩

end Log

end Runbook
