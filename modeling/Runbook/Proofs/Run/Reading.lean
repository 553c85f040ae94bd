import Runbook.Proofs.Run.Accepted
import Runbook.Proofs.Run.Determinacy

/-!
# What passes read

A check follows the references in the inputs of steps and not those in their guards.  So what the
input of a step refers to is done whenever a pass comes to the step (`checked_plan_reads_finished`),
for every plan that passes the check, in either mode and for every order of completion.  A guard may
also refer to steps that its step does not wait for.  Of these it sees the output if they ran, and no
value while they are not done (`guard_reads_ahead` has a plan with such a guard).
-/

namespace Runbook.Run

/-! ## What a step reads -/

theorem textIn_of_get?_eq_none {outputs : Bindings} {x : Reference}
    (h : outputs.get? x.step = none) : x.textIn outputs = Reference.noValue := by
  unfold Reference.textIn
  rw [h]

/-- **What a step reads is finished** in a state of a run of `g`, as far as that is promised. -/
structure ReadsFinished (g : Plan.Graph) (s : State) (step : Plan.Step) : Prop where
  /-- What the input refers to is done. -/
  input : ∀ x ∈ Reference.inMembers step.input, x.step ∈ s.done
  /-- What the guard refers to is done, if it comes before the step. -/
  guard : ∀ guard, step.guard = some guard → ∀ x ∈ Reference.inText guard,
    Relation.TransGen g.DependsOn step.name x.step → x.step ∈ s.done
  /-- Of a step that is not done the guard sees no value. -/
  unseen : ∀ guard, step.guard = some guard → ∀ x ∈ Reference.inText guard,
    x.step ∉ s.done → x.textIn s.workspace.outputs = Reference.noValue

/-- A step that waits for nothing reads what is finished, if its input refers to its dependencies
only. -/
theorem Valid.readsFinished {g : Plan.Graph} {s : State} (hs : Valid g s) {step : Plan.Step}
    (hstep : step ∈ g.steps) (hready : ∀ d ∈ step.dependencies.toList, d ∈ s.done)
    (hinput : ∀ x ∈ Reference.inMembers step.input, x.step ∈ step.dependencies) :
    ReadsFinished g s step where
  input x hx := hready x.step (hinput x hx)
  guard _ _ _ _ hbefore := hs.done_of_transGen hstep hready hbefore
  unseen _ _ _ _ hnot := textIn_of_get?_eq_none (hs.get?_of_not_done hnot)

/-- Steps that are skipped meanwhile take nothing away from what a step reads. -/
theorem ReadsFinished.skipAll {g : Plan.Graph} {s : State} {step : Plan.Step}
    (h : ReadsFinished g s step) (skips : List Skip) : ReadsFinished g (s.skipAll skips) step where
  input x hx := State.mem_done_skipAll.mpr (Or.inl (h.input x hx))
  guard guard hguard x hx hbefore :=
    State.mem_done_skipAll.mpr (Or.inl (h.guard guard hguard x hx hbefore))
  unseen guard hguard x hx hnot := by
    rw [State.workspace_skipAll]
    exact h.unseen guard hguard x hx fun hdone => hnot (State.mem_done_skipAll.mpr (Or.inl hdone))

/-- An output that a step got changes nothing about what it reads. -/
theorem ReadsFinished.fill {g : Plan.Graph} {s : State} {step : Plan.Step}
    (h : ReadsFinished g s step) (outputs : Bindings) : ReadsFinished g s (step.fill outputs) :=
  ⟨h.input, h.guard, h.unseen⟩

/-- **The steps of a plan that passes the check read what is finished.**  Whenever a pass of a run
comes to a step, having skipped what it skipped of the steps before it, what the input of the step
refers to is done; so is what its guard refers to, if that comes before the step; and of any other
step that is not done the guard sees no value. -/
theorem checked_plan_reads_finished {box : Toolbox} {files : Files} {content : String}
    (h : Plan.check box files content = (true, "")) :
    ∃ s, prepare box files content = .ok s ∧
      ∀ (answers : Answers) (completion : Completion) (mode : Mode) earlier r later,
        (drive answers completion mode 0 s).rounds = earlier ++ r :: later →
        let now := s.replay (earlier.flatMap Round.changes)
        r.pass = now.frontier ∧
          ∀ before name after, now.ready = before ++ name :: after →
            let seen := (before.foldl Pass.take (Pass.start now)).state
            ∃ step, seen.graph.find? name = some step ∧ ReadsFinished s.graph seen step := by
  obtain ⟨records, g, -, hrules, hdescribes, hprepare⟩ := exists_prepare_of_check h
  refine ⟨.start g, hprepare, fun answers completion mode earlier r later hrounds => ?_⟩
  obtain ⟨⟨flying, hr⟩, hpass⟩ := reached_round hprepare hrounds
  refine ⟨hpass, fun before name after hready => ?_⟩
  obtain ⟨filled, skips, hfind, hwaits, hseen⟩ := exists_skips hready
  obtain ⟨step, hstep, rfl, rfl⟩ := hr.find?_eq hfind
  rw [hseen]
  refine ⟨_, (State.graph_skipAll _ skips).symm ▸ hfind, ?_⟩
  -- the record of the step lists what its input refers to
  obtain ⟨record, hrecord, hread⟩ := (Plan.exists_describes_of_mem hdescribes).2 step hstep
  have hinput : ∀ x ∈ Reference.inMembers step.input, x.step ∈ step.dependencies := fun x hx =>
    hread.mem_dependencies.mpr (hrules.listed record hrecord x (hread.uses hx))
  have hnow := hr.valid.readsFinished hstep (State.isReady_iff.mp hwaits) hinput
  exact (hnow.skipAll skips).fill _

theorem checked_plan_reads_finished_of_looselyWritten :
    Plan.check passing .empty looselyWritten = (true, "") ∧
      ∃ s, prepare passing .empty looselyWritten = .ok s ∧
        ∀ (answers : Answers) (completion : Completion) (mode : Mode) earlier r later,
          (drive answers completion mode 0 s).rounds = earlier ++ r :: later →
          let now := s.replay (earlier.flatMap Round.changes)
          r.pass = now.frontier ∧
            ∀ before name after, now.ready = before ++ name :: after →
              let seen := (before.foldl Pass.take (Pass.start now)).state
              ∃ step, seen.graph.find? name = some step ∧ ReadsFinished s.graph seen step := by
  have hcheck : Plan.check passing .empty looselyWritten = (true, "") := by decide +kernel
  exact ⟨hcheck, checked_plan_reads_finished hcheck⟩

/-- Two steps that do not wait for each other, the guard of the first referring to the second. -/
def guardedAhead : String :=
  "- name: a\n  toolname: t\n  activate: $\x7bb\x7d == 1\n- name: b\n  toolname: t\n"

/-- What the first pass over it finds. -/
theorem first_of_guardedAhead : ((prepare passing .empty guardedAhead).toOption.map fun s =>
    (s.ready, (s.graph.find? "a").map Plan.Step.guard, s.done.toList,
      s.frontier.state.skipped.toList, (sequential passing s).rounds.length)) =
    some (["a", "b"], some (some "$\x7bb\x7d == 1"), [], ["a"], 2) := by
  decide +kernel

/-- **A guard may refer to a step that is not done**, in a plan that passes the check: the first pass
of the run evaluates the guard of the first step before the second one has run, and skips it. -/
theorem guard_reads_ahead : Plan.check passing .empty guardedAhead = (true, "") ∧
    ∃ s step guard x, prepare passing .empty guardedAhead = .ok s ∧
      (∃ r later, (sequential passing s).rounds = r :: later ∧ r.pass = s.frontier) ∧
      s.ready = ["a", "b"] ∧ s.graph.find? "a" = some step ∧ step.guard = some guard ∧
      x ∈ Reference.inText guard ∧ x.step ∉ s.done ∧ "a" ∈ s.frontier.state.skipped := by
  refine ⟨by decide +kernel, ?_⟩
  obtain ⟨s, hs, hfirst⟩ := exists_ok_of_map first_of_guardedAhead
  simp only [Prod.mk.injEq, Option.map_eq_some_iff] at hfirst
  obtain ⟨hready, ⟨step, hfind, hguard⟩, hdone, hskipped, hlength⟩ := hfirst
  have hnot : "b" ∉ s.done.toList := hdone ▸ List.not_mem_nil
  have hin : "a" ∈ s.frontier.state.skipped.toList := hskipped ▸ List.mem_singleton_self "a"
  refine ⟨s, step, _, ⟨"b", none⟩, hs, ?_, hready, hfind, hguard, by decide +kernel, hnot, hin⟩
  cases hrounds : (sequential passing s).rounds with
  | nil => simp [hrounds] at hlength
  | cons r later =>
    rw [← List.nil_append (r :: later)] at hrounds
    exact ⟨r, later, rfl, (reached_round hs hrounds).2⟩

end Runbook.Run
