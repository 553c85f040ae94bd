import Runbook.Proofs.Plan.Check
import Runbook.Proofs.Run.Start

/-!
# Plans that pass the check

A check and a run read the records of a plan apart from each other.  For a plan that passes the
check a run starts with all of it: no record is left out, none takes the place of another, and the
steps have an order (`accepted_plan_is_prepared`).
-/

namespace Runbook.Run
variable {box : Toolbox} {files : Files} {content : String}

/-- What a check accepts can be read, and keeps the rules. -/
theorem wellFormed_of_check (h : Plan.check box files content = (true, "")) :
    ∃ records, Plan.Document.load files content = .ok records ∧ Plan.WellFormed box records := by
  unfold Plan.check at h
  cases hload : Plan.Document.load files content with
  | error e =>
    rw [hload] at h
    cases h
  | ok records =>
    rw [hload] at h
    have hreport : (Plan.Findings.ofRecords box records).report = "" := congrArg Prod.snd h
    have hfindings := Plan.Findings.report_eq_empty_iff.mp hreport
    have hnotes := Plan.Findings.ofNotes_eq_nil_iff.mp hfindings
    exact ⟨records, rfl, Plan.wellFormed_of_notes_eq_nil hnotes⟩

/-- The tools of records that keep the rules are all offered. -/
theorem offered_eq {records : List Plan.Record} (h : Plan.WellFormed box records) :
    offered box records = records := by
  refine List.filter_eq_self.mpr fun r hr => ?_
  obtain ⟨spec, tool, htool, hspec⟩ := h.registered r hr
  unfold Toolbox.offers
  rw [htool.textField_eq, hspec]
  rfl

/-- For a plan that passes the check a run starts with the steps that its records describe. -/
theorem exists_prepare_of_check (h : Plan.check box files content = (true, "")) :
    ∃ records g, Plan.Document.load files content = .ok records ∧ Plan.WellFormed box records ∧
      List.Forall₂ Plan.Record.Describes records g.steps ∧
      prepare box files content = .ok (.start g) := by
  obtain ⟨records, hload, hrules⟩ := wellFormed_of_check h
  obtain ⟨steps, hsteps⟩ := Plan.exists_steps hrules.mapping
  have hread : Plan.Graph.ofRecords (offered box records) = .ok (Plan.Graph.ofSteps steps) := by
    rw [offered_eq hrules]
    exact Plan.Graph.putRecords_eq hsteps _ 0
  have hnodup := Plan.nodup_map_name hrules.complete hrules.apart hsteps
  refine ⟨records, _, hload, hrules, ?_,
    prepare_eq_ok hload hread (hrules.orderError?_eq_none hsteps)⟩
  rw [Plan.Graph.steps_ofSteps hnodup]
  exact hsteps

/-- **A plan that passes the check is run in full.**  Its records are all kept, and the run starts
with one step for each of them, in their order, of the name that the record says. -/
theorem accepted_plan_is_prepared (h : Plan.check box files content = (true, "")) :
    ∃ records g, Plan.Document.load files content = .ok records ∧ offered box records = records ∧
      prepare box files content = .ok (.start g) ∧
      List.Forall₂ (fun r step => r.Says "name" step.name ∧ r.Describes step) records g.steps := by
  obtain ⟨records, g, hload, hrules, hsteps, hprepare⟩ := exists_prepare_of_check h
  have hnamed : ∀ r ∈ records, ∃ name, r.Says "name" name := fun r hr => (hrules.complete r hr).1
  refine ⟨records, g, hload, offered_eq hrules, hprepare, ?_⟩
  exact ((List.forall₂_and_left _ _).mpr ⟨hnamed, hsteps⟩).imp fun r step ⟨hname, hdescribes⟩ =>
    ⟨hdescribes.says_name hname, hdescribes⟩

/-- A tool with one parameter, whose output has one field. -/
def passing : Toolbox where
  spec? name := if name = "t" then some ⟨"t", "", [("q", .plain)], [("p", .plain)]⟩ else none
  call _ input _ := .ok (.object input)

/-- A number for a name, an input that is `null`, a dependency that is no list, and a reference
inside a list. -/
def looselyWritten : String :=
  "- name: 7\n  toolname: t\n  input:\n- name: b\n  toolname: t\n  dependency: 7\n" ++
    "  input:\n    q:\n    - $\x7b7.p\x7d\n    r:\n"

theorem accepted_plan_is_prepared_of_looselyWritten :
    Plan.check passing .empty looselyWritten = (true, "") ∧
      ∃ records g, Plan.Document.load .empty looselyWritten = .ok records ∧
        offered passing records = records ∧
        prepare passing .empty looselyWritten = .ok (.start g) ∧
        List.Forall₂ (fun r step => r.Says "name" step.name ∧ r.Describes step)
          records g.steps := by
  have hcheck : Plan.check passing .empty looselyWritten = (true, "") := by decide +kernel
  exact ⟨hcheck, accepted_plan_is_prepared hcheck⟩

end Runbook.Run
