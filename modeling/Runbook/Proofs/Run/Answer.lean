import Mathlib.Data.List.Induction
import Runbook.Proofs.Run.Confluence

/-!
# The answer of a run

The answer of a run is read off the outputs of steps that are known before the run, if these ran:
the step that was asked for, or the sinks (`State.AnswersBySteps`).  It is then the same in states
that agree.  Otherwise the answer is the last result, and the step that ran last is one of the last
wave that was handed out, whichever of its steps completes last.

So the order in which the steps of each wave complete decides nothing about the answer, if that is
read off known steps, if the last wave has one step that shows something (`Trace.EndsAlone`), or if
all waves have one step (`answer_independent_of_order`); and it decides the answer of a plan whose
last wave has two steps, one sink being skipped (`answer_depends_on_order`).
-/

namespace Runbook.Run

/-! ## Answers of states that agree -/

/-- **The answer is read off known steps**: the step that was asked for ran, or all sinks ran. -/
def State.AnswersBySteps (s : State) (resultStep : Option String) : Prop :=
  (∃ step, resultStep = some step ∧ step ∈ s.executed) ∨
    s.graph.sinks ≠ [] ∧ ∀ step ∈ s.graph.sinks, step ∈ s.executed

section States
variable {s t : State} {resultStep : Option String}

theorem State.Agrees.sinkOutputs_eq (h : s.Agrees t) (hgraph : s.graph = t.graph) :
    s.sinkOutputs = t.sinkOutputs := by
  unfold State.sinkOutputs
  rw [hgraph]
  apply List.filterMap_congr
  intro step _
  rw [h.output_eq]

theorem State.Agrees.asked_eq (h : s.Agrees t) :
    (resultStep.bind fun step => s.workspace.outputs.get? step) =
      resultStep.bind fun step => t.workspace.outputs.get? step :=
  congrArg resultStep.bind (funext h.output_eq)

/-- States that agree have the same answer if they have the same last result. -/
theorem State.Agrees.result_eq (h : s.Agrees t) (hgraph : s.graph = t.graph)
    (hlast : s.workspace.lastResult = t.workspace.lastResult) :
    s.result resultStep = t.result resultStep := by
  unfold State.result
  rw [h.asked_eq, h.sinkOutputs_eq hgraph, hgraph, hlast]

theorem length_sinkOutputs (h : ∀ step ∈ s.graph.sinks, step ∈ s.workspace.outputs.keys) :
    s.sinkOutputs.length = s.graph.sinks.length := by
  refine List.filterMap_length_eq_length.mpr fun step hstep => ?_
  rw [Option.isSome_map, Option.isSome_iff_ne_none]
  exact fun hnone => Table.get?_eq_none_iff.mp hnone (h step hstep)

/-- **An answer that is read off known steps** is the same in states that agree. -/
theorem State.Agrees.result_eq_of_answersBySteps (h : s.Agrees t) (hgraph : s.graph = t.graph)
    (hkeys : s.workspace.outputs.keys = s.executed) (hsteps : s.AnswersBySteps resultStep) :
    s.result resultStep = t.result resultStep := by
  rcases hsteps with ⟨step, rfl, hran⟩ | ⟨hsinks, hran⟩
  · -- the step that was asked for has an output
    cases hvalue : s.workspace.outputs.get? step with
    | none => exact absurd (hkeys ▸ hran) (Table.get?_eq_none_iff.mp hvalue)
    | some v =>
      have hvalue' := h.output_eq step ▸ hvalue
      simp [State.result, hvalue, hvalue']
  · have hlength := length_sinkOutputs fun step hstep => hkeys ▸ hran step hstep
    have hsame := h.sinkOutputs_eq hgraph
    cases houtputs : s.sinkOutputs with
    | nil =>
      rw [houtputs] at hlength
      exact absurd (List.eq_nil_of_length_eq_zero hlength.symm) hsinks
    | cons first rest =>
      -- all sinks have outputs, so the last result is not looked at
      rw [houtputs] at hlength hsame
      have hlength' : (first :: rest).length = t.graph.sinks.length := hgraph ▸ hlength
      unfold State.result
      rw [h.asked_eq, houtputs, ← hsame]
      dsimp only
      rw [if_pos hlength, if_pos hlength']
      cases rest <;> rfl

/-- The last result is that of the last output, if that shows something or is a mapping. -/
theorem lastResult_congr {w u : Workspace} {step : String} {v : Json} (hw : w.last = some step)
    (hu : u.last = some step) (hv : w.outputs.get? step = some v)
    (hv' : u.outputs.get? step = some v)
    (hshown : isEmptyValue v = false ∨ ∃ members, v = .object members) :
    w.lastResult = u.lastResult := by
  have hlast : (w.last.bind fun step => w.outputs.get? step) = some v := by
    rw [hw]
    exact hv
  have hlast' : (u.last.bind fun step => u.outputs.get? step) = some v := by
    rw [hu]
    exact hv'
  unfold Workspace.lastResult
  rw [hlast, hlast']
  rcases hshown with hshown | ⟨members, rfl⟩
  · simp [hshown]
  · rfl

end States

/-! ## Which steps completed, in order -/

/-- The steps that a row of changes completes, in order. -/
def completedSteps (changes : List Change) : List String :=
  changes.filterMap fun
    | .complete c => some c.step
    | _ => none

theorem completedSteps_append (changes more : List Change) :
    completedSteps (changes ++ more) = completedSteps changes ++ completedSteps more :=
  List.filterMap_append

/-- The steps that rounds completed, in order. -/
def completedIn (rounds : List Round) : List String :=
  rounds.flatMap fun r => r.completed.map Completed.step

theorem completedSteps_changes (t : Trace) : completedSteps t.changes = completedIn t.rounds := by
  unfold completedSteps Trace.changes completedIn
  rw [List.filterMap_flatMap]
  congr 1
  funext r
  simp [Round.changes, List.filterMap_append, List.filterMap_map]

namespace Reached
variable {answers : Answers} {g : Plan.Graph} {s : State} {inFlight : List Pending}
  {changes : List Change}

/-- The outputs are in the order in which the steps completed. -/
theorem keys_eq_completed (hr : Reached answers g s inFlight changes) :
    s.workspace.outputs.keys = completedSteps changes := by
  induction hr with
  | start => rfl
  | skip _ _ _ _ ih =>
    rw [completedSteps_append]
    exact ih.trans (List.append_nil _).symm
  | activate _ _ _ _ ih =>
    rw [completedSteps_append]
    exact ih.trans (List.append_nil _).symm
  | @complete s next _ _ action answer hr hflight _ hnext ih =>
    have hnew := hr.not_mem_keys (hr.left_of_mem hflight)
    rw [(complete_eq_ok hnext).2]
    show (Table.put s.workspace.outputs action.step _).keys = _
    rw [Table.keys_put_of_not_mem hnew, ih, completedSteps_append]
    rfl

/-- The step that ran last is the last one with an output. -/
theorem last_eq (hr : Reached answers g s inFlight changes) :
    s.workspace.last = s.workspace.outputs.keys.getLast? := by
  induction hr with
  | start => rfl
  | skip _ _ _ _ ih => exact ih
  | activate _ _ _ _ ih => exact ih
  | @complete s next _ _ action answer hr hflight _ hnext ih =>
    have hnew := hr.not_mem_keys (hr.left_of_mem hflight)
    rw [(complete_eq_ok hnext).2]
    show some action.step = (Table.put s.workspace.outputs action.step _).keys.getLast?
    rw [Table.keys_put_of_not_mem hnew, List.getLast?_concat]

end Reached

/-! ## Waves that are handed out -/

/-- **The waves that a run hands out**, in order: what each round hands out, if that is anything. -/
def Trace.waves (t : Trace) : List (List Pending) :=
  (t.rounds.map Round.started).filter fun wave => !wave.isEmpty

/-- **A run ends with a step on its own** that shows something: the last wave has one step, whose
output is not empty or is a mapping. -/
def Trace.EndsAlone (t : Trace) : Prop :=
  ∃ action, t.waves.getLast? = some [action] ∧
    ∀ v, t.state.workspace.outputs.get? action.step = some v →
      isEmptyValue v = false ∨ ∃ members, v = .object members

/-- **A round completes the steps that it hands out**, in some order. -/
def Round.Completes (r : Round) : Prop :=
  (r.completed.map Completed.step).Perm (r.started.map Pending.step)

theorem completed_settle {answers : Answers} {s : State} {order : List Pending}
    (hok : (settle answers s order).failure = none) :
    (settle answers s order).completed.map Completed.step = order.map Pending.step := by
  induction order generalizing s with
  | nil => rfl
  | cons action rest ih =>
    cases hreceive : action.receive (answers s.workspace.history action) with
    | error e =>
      rw [settle_of_error hreceive] at hok
      cases hok
    | ok c =>
      cases hnext : s.complete c with
      | error e =>
        rw [settle_of_twice hreceive hnext] at hok
        cases hok
      | ok next =>
        rw [settle_of_ok hreceive hnext] at hok ⊢
        rw [List.map_cons, List.map_cons, step_of_receive hreceive]
        exact congrArg _ (ih hok)

theorem Takes.completes {answers : Answers} {s : State} {t : Turn} (ht : Takes answers s t)
    (hok : ∀ e, t.ending ≠ some (.error e)) : t.round.Completes := by
  cases ht with
  | finish => exact List.Perm.refl _
  | rest => exact List.Perm.refl _
  | @handOut wave order _ _ hperm =>
    have hnone : (settle answers (s.frontier.state.activateAll wave) order).failure = none :=
      Option.eq_none_iff_forall_ne_some.mpr fun e he =>
        hok e (congrArg (Option.map Except.error) he)
    show ((settle answers _ order).completed.map Completed.step).Perm (wave.map Pending.step)
    rw [completed_settle hnone]
    exact hperm.map _

/-- **In a run that ends well, every round completes the steps that it hands out.** -/
theorem completes_of_ok {answers : Answers} {completion : Completion} {mode : Mode} (wave : Nat)
    (s : State) (hok : (drive answers completion mode wave s).outcome = .ok ()) :
    ∀ r ∈ (drive answers completion mode wave s).rounds, r.Completes := by
  refine drive_induction
    (motive := fun _ _ t => t.outcome = .ok () → ∀ r ∈ t.rounds, r.Completes) ?_ ?_ ?_ wave s hok
  · exact fun _ _ _ _ r hr => absurd hr List.not_mem_nil
  · intro wave s t outcome ht hend hok r hr
    obtain rfl : outcome = .ok () := hok
    obtain rfl : r = t.round := List.mem_singleton.mp hr
    refine (takes_of_turn? ht).completes fun e he => ?_
    rw [hend] at he
    cases he
  · intro wave s t rest ht hgoes ih hok r hr
    rcases List.mem_cons.mp hr with rfl | hr
    · refine (takes_of_turn? ht).completes fun e he => ?_
      rw [hgoes] at he
      cases he
    · exact ih hok r hr

section Rounds
variable {rounds : List Round}

theorem Round.Completes.completed_eq_nil {r : Round} (h : r.Completes) (hnil : r.started = []) :
    r.completed.map Completed.step = [] := by
  unfold Round.Completes at h
  rw [hnil] at h
  exact h.eq_nil

/-- If the last wave has one step, that step completes last. -/
theorem getLast?_completedIn (hrounds : ∀ r ∈ rounds, r.Completes) {action : Pending}
    (hlast : ((rounds.map Round.started).filter fun wave => !wave.isEmpty).getLast? =
      some [action]) : (completedIn rounds).getLast? = some action.step := by
  induction rounds using List.reverseRecOn with
  | nil => cases hlast
  | append_singleton earlier r ih =>
    have hr : r.Completes := hrounds r (by simp)
    have hmore : completedIn (earlier ++ [r]) =
        completedIn earlier ++ r.completed.map Completed.step := by
      simp [completedIn]
    rw [hmore]
    rw [List.map_append, List.filter_append] at hlast
    cases hstarted : r.started with
    | nil =>
      -- the last round hands nothing out, so the last wave came before
      rw [hr.completed_eq_nil hstarted, List.append_nil]
      refine ih (fun r' hr' => hrounds r' (List.mem_append_left _ hr')) ?_
      simpa [hstarted] using hlast
    | cons first others =>
      have hwave : r.started = [action] := by
        rw [hstarted]
        simpa [hstarted] using hlast
      unfold Round.Completes at hr
      rw [hwave] at hr
      rw [List.perm_singleton.mp hr]
      exact List.getLast?_concat

/-- If each wave has one step, steps complete as they are handed out. -/
theorem completedIn_eq (hrounds : ∀ r ∈ rounds, r.Completes)
    (halone : ∀ wave ∈ (rounds.map Round.started).filter fun wave => !wave.isEmpty,
      wave.length = 1) :
    completedIn rounds = (rounds.map Round.started).flatMap (List.map Pending.step) := by
  unfold completedIn
  rw [List.flatMap_map]
  refine List.flatMap_congr fun r hr => ?_
  cases hstarted : r.started with
  | nil => exact (hrounds r hr).completed_eq_nil hstarted
  | cons first others =>
    have hwave : r.started ∈ (rounds.map Round.started).filter fun wave => !wave.isEmpty :=
      List.mem_filter.mpr ⟨List.mem_map_of_mem hr, by simp [hstarted]⟩
    obtain ⟨action, haction⟩ := List.length_eq_one_iff.mp (halone _ hwave)
    have hperm := hrounds r hr
    unfold Round.Completes at hperm
    rw [haction] at hperm
    rw [← hstarted, haction]
    exact List.perm_singleton.mp hperm

end Rounds

/-! ## Runs that end well -/

theorem reached_of_ok {box : Toolbox} {files : Files} {content : String} {s : State}
    (h : prepare box files content = .ok s) {answers : Answers} {completion : Completion}
    {mode : Mode} (hok : (drive answers completion mode 0 s).outcome = .ok ()) :
    Reached answers s.graph (drive answers completion mode 0 s).state []
      (drive answers completion mode 0 s).changes := by
  obtain ⟨flying, hreached, hended⟩ := reached_of_prepare h answers completion mode
  rw [hok] at hended
  cases hended with
  | finished hflying _ => exact hflying ▸ hreached

theorem started_eq_of_alike {rounds rounds' : List Round}
    (h : List.Forall₂ Round.Alike rounds rounds') :
    rounds.map Round.started = rounds'.map Round.started := by
  induction h with
  | nil => rfl
  | cons hround _ ih => rw [List.map_cons, List.map_cons, hround.started_eq, ih]

section TwoRuns
variable {answers : Answers} {g : Plan.Graph} {t t' : Trace}
  (hr : Reached answers g t.state [] t.changes) (hr' : Reached answers g t'.state [] t'.changes)
  (hc : ∀ r ∈ t.rounds, r.Completes) (hc' : ∀ r ∈ t'.rounds, r.Completes)
  (hstarted : t.rounds.map Round.started = t'.rounds.map Round.started)
  (hagrees : t.state.Agrees t'.state)

/-- The outputs of a run are in the order in which its rounds completed the steps. -/
theorem Reached.keys_eq_completedIn (hr : Reached answers g t.state [] t.changes) :
    t.state.workspace.outputs.keys = completedIn t.rounds :=
  hr.keys_eq_completed.trans (completedSteps_changes t)

include hr hr' hc hc' hstarted hagrees

/-- **The last result of runs that end with a step on its own** is the same. -/
theorem lastResult_eq_of_endsAlone (hends : t.EndsAlone) :
    t.state.workspace.lastResult = t'.state.workspace.lastResult := by
  obtain ⟨action, hlast, hshown⟩ := hends
  have hkey := getLast?_completedIn hc hlast
  unfold Trace.waves at hlast
  have hkey' := getLast?_completedIn hc' (hstarted ▸ hlast)
  rw [← hr.keys_eq_completedIn] at hkey
  rw [← hr'.keys_eq_completedIn] at hkey'
  cases hvalue : t.state.workspace.outputs.get? action.step with
  | none => exact absurd (List.mem_of_getLast? hkey) (Table.get?_eq_none_iff.mp hvalue)
  | some v =>
    have hvalue' := hagrees.output_eq action.step ▸ hvalue
    exact lastResult_congr (hr.last_eq.trans hkey) (hr'.last_eq.trans hkey') hvalue hvalue'
      (hshown v hvalue)

/-- **The last result of runs whose waves have one step each** is the same. -/
theorem lastResult_eq_of_alone (halone : ∀ wave ∈ t.waves, wave.length = 1) :
    t.state.workspace.lastResult = t'.state.workspace.lastResult := by
  unfold Trace.waves at halone
  have hkeys : t.state.workspace.outputs.keys = t'.state.workspace.outputs.keys := by
    rw [hr.keys_eq_completedIn, hr'.keys_eq_completedIn, completedIn_eq hc halone, hstarted,
      completedIn_eq hc' (hstarted ▸ halone)]
  have hnodup : t.state.workspace.outputs.keys.Nodup :=
    hr.valid.keys_eq ▸ hr.valid.executed_nodup
  have houtputs := Table.eq_of_get?_eq hkeys hnodup hagrees.output_eq
  have hlast : t.state.workspace.last = t'.state.workspace.last := by
    rw [hr.last_eq, hr'.last_eq, hkeys]
  unfold Workspace.lastResult Workspace.allLines
  rw [houtputs, hlast]

end TwoRuns

/-- **The order in which the steps of each wave complete does not decide the answer**, whichever
sinks ran, if the answer is read off known steps, if the run ends with a step on its own that shows
something, or if each of its waves has one step. -/
theorem answer_independent_of_order {box : Toolbox} {files : Files} {content : String} {s : State}
    (h : prepare box files content = .ok s) (model : Option Tool.Model) (c c' : Completion)
    (resultStep : Option String) :
    let t := concurrent box model c s
    let t' := concurrent box model c' s
    t.outcome = .ok () → t'.outcome = .ok () ∧
      (t.state.AnswersBySteps resultStep ∨ t.EndsAlone ∨ (∀ wave ∈ t.waves, wave.length = 1) →
        t'.state.result resultStep = t.state.result resultStep) := by
  intro t t' hok
  have hinStep : InStep box model t t' := by
    obtain ⟨g, rfl, hg⟩ := start_of_prepare h
    have hr : Reached (.ofToolbox box model) g (.start g) [] [] := .start
    exact hr.drive_inStep hr hg (.refl _) c c' 0
  rcases hinStep.ending with ⟨-, hok', hagrees⟩ | ⟨_, _, e, _, _, _, he, _⟩
  · refine ⟨hok', fun hcases => ?_⟩
    have hr := reached_of_ok h hok
    have hr' := reached_of_ok h hok'
    have hc := completes_of_ok 0 s hok
    have hc' := completes_of_ok 0 s hok'
    have hstarted := started_eq_of_alike hinStep.alike
    have hgraph := hr.graph_congr hr' hagrees
    rcases hcases with hsteps | hends | halone
    · exact (hagrees.result_eq_of_answersBySteps hgraph hr.valid.keys_eq hsteps).symm
    · have hlast := lastResult_eq_of_endsAlone hr hr' hc hc' hstarted hagrees hends
      exact (hagrees.result_eq hgraph hlast).symm
    · have hlast := lastResult_eq_of_alone hr hr' hc hc' hstarted hagrees halone
      exact (hagrees.result_eq hgraph hlast).symm
  · rw [hok] at he
    cases he

/-- Two steps of one wave with different outputs, and a third sink that is skipped. -/
def twoAnswers : String :=
  "- name: a\n  toolname: t\n  input:\n    q: 1\n- name: b\n  toolname: t\n  input:\n    q: 2\n" ++
    "- name: c\n  toolname: t\n  activate: 1 == 2\n"

/-- What two runs of it come to, in which the steps of the wave complete in opposite orders. -/
theorem runs_twoAnswers : ((prepare echoing .empty twoAnswers).toOption.map fun s =>
    let t := concurrent echoing none .declared s
    let t' := concurrent echoing none .reversed s
    (t.outcome.isOk, t'.outcome.isOk, t.state.executed, t.state.result none,
      t'.state.result none)) = some (true, true, ["a", "b"], "2\n", "1\n") := by
  decide +kernel

theorem eq_ok_of_isOk {outcome : Except Error Unit} (h : outcome.isOk = true) :
    outcome = .ok () := by
  cases outcome with
  | ok => rfl
  | error e => cases h

/-- Two steps of one wave, a step on its own behind them, and another sink, which is skipped. -/
def lastAlone : String :=
  "- name: a\n  toolname: t\n  input:\n    q: 1\n- name: b\n  toolname: t\n" ++
    "- name: c\n  toolname: t\n  dependency: [a, b]\n  input:\n    q: 3\n" ++
    "- name: d\n  toolname: t\n  activate: 1 == 2\n"

/-- What a run of it comes to: its waves, its sinks and what ran of them, and the last output. -/
theorem runs_lastAlone : ((prepare echoing .empty lastAlone).toOption.map fun s =>
    let t := concurrent echoing none .declared s
    (t.outcome.isOk, t.waves.map (·.map Pending.step), t.state.graph.sinks, t.state.executed,
      (t.state.workspace.outputs.get? "c").map isEmptyValue)) =
      some (true, [["a", "b"], ["c"]], ["c", "d"], ["a", "b", "c"], some false) := by
  decide +kernel

/-- A run ends alone if its last wave has one step, by name, whose output is not empty. -/
theorem Trace.endsAlone_of_step {t : Trace} {step : String}
    (hlast : (t.waves.map (·.map Pending.step)).getLast? = some [step])
    (hshown : (t.state.workspace.outputs.get? step).map isEmptyValue = some false) :
    t.EndsAlone := by
  rw [List.getLast?_map] at hlast
  obtain ⟨wave, hwave, hstep⟩ := Option.map_eq_some_iff.mp hlast
  obtain ⟨action, rfl, rfl⟩ := List.map_eq_singleton_iff.mp hstep
  refine ⟨action, hwave, fun v hv => Or.inl ?_⟩
  rw [hv] at hshown
  exact Option.some.inj hshown

/-- The answer of two steps is that of the one that was asked for.  Behind a wave of several steps, with
a sink that is skipped, it is that of the step on its own. -/
theorem answer_independent_of_order_of_askedOrAlone :
    (∃ s, prepare echoing .empty twoAnswers = .ok s ∧
      let t := concurrent echoing none .declared s
      let t' := concurrent echoing none .reversed s
      t.outcome = .ok () ∧ t.state.AnswersBySteps (some "a") ∧
        t'.state.result (some "a") = t.state.result (some "a")) ∧
    ∃ s, prepare echoing .empty lastAlone = .ok s ∧
      let t := concurrent echoing none .declared s
      let t' := concurrent echoing none .reversed s
      t.outcome = .ok () ∧ ¬ t.state.AnswersBySteps none ∧
        ¬ (∀ wave ∈ t.waves, wave.length = 1) ∧ t.EndsAlone ∧
        t'.state.result none = t.state.result none := by
  constructor
  · obtain ⟨s, hs, hruns⟩ := exists_ok_of_map runs_twoAnswers
    simp only [Prod.mk.injEq] at hruns
    obtain ⟨hok, -, hran, -⟩ := hruns
    have hsteps : (concurrent echoing none .declared s).state.AnswersBySteps (some "a") :=
      Or.inl ⟨"a", rfl, hran ▸ List.mem_cons_self⟩
    have hanswer := answer_independent_of_order hs none .declared .reversed (some "a")
      (eq_ok_of_isOk hok)
    exact ⟨s, hs, eq_ok_of_isOk hok, hsteps, hanswer.2 (Or.inl hsteps)⟩
  · obtain ⟨s, hs, hruns⟩ := exists_ok_of_map runs_lastAlone
    simp only [Prod.mk.injEq] at hruns
    obtain ⟨hok, hwaves, hsinks, hran, hshown⟩ := hruns
    have hanswer := answer_independent_of_order hs none .declared .reversed none (eq_ok_of_isOk hok)
    have hends : (concurrent echoing none .declared s).EndsAlone :=
      Trace.endsAlone_of_step (hwaves ▸ rfl) hshown
    refine ⟨s, hs, eq_ok_of_isOk hok, ?_, ?_, hends, hanswer.2 (Or.inr (Or.inl hends))⟩
    · -- the sink `d` did not run
      rintro (⟨step, hnone, -⟩ | ⟨-, hall⟩)
      · cases hnone
      · rw [hsinks, hran] at hall
        exact absurd (hall "d" (by decide)) (by decide)
    · intro halone
      have hlengths : ∀ names ∈ (concurrent echoing none .declared s).waves.map
          (·.map Pending.step), names.length = 1 := by
        intro names hnames
        obtain ⟨wave, hwave, rfl⟩ := List.mem_map.mp hnames
        rw [List.length_map]
        exact halone wave hwave
      rw [hwaves] at hlengths
      exact absurd (hlengths ["a", "b"] (by decide)) (by decide)

/-- **The order decides the answer** of two steps of one wave, if another sink is skipped and no
step is asked for: both runs end well, and each answers with the output of the step that completed
last. -/
theorem answer_depends_on_order : ∃ s, prepare echoing .empty twoAnswers = .ok s ∧
    (concurrent echoing none .declared s).outcome = .ok () ∧
    (concurrent echoing none .reversed s).outcome = .ok () ∧
    (concurrent echoing none .declared s).state.result none = "2\n" ∧
    (concurrent echoing none .reversed s).state.result none = "1\n" := by
  obtain ⟨s, hs, hruns⟩ := exists_ok_of_map runs_twoAnswers
  simp only [Prod.mk.injEq] at hruns
  obtain ⟨hok, hok', -, hdeclared, hreversed⟩ := hruns
  exact ⟨s, hs, eq_ok_of_isOk hok, eq_ok_of_isOk hok', hdeclared, hreversed⟩

end Runbook.Run
