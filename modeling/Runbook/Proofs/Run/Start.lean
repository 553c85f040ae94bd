import Runbook.Proofs.Plan.Collect
import Runbook.Proofs.Plan.Cycle
import Runbook.Proofs.Run.Course

/-!
# How a run starts

Three things happen to the records of a plan before a step is run: those whose tool is not offered
are left out, the others are read into a graph, and the graph is looked through for what keeps it
from having an order.  So it is the records that are kept which decide (`starts_with_runnable_part`):
a fault of a record that is left out, or of one whose place another takes, does not count.
-/

namespace Runbook.Run
variable {box : Toolbox} {files : Files} {content : String} {records : List Plan.Record}
  {g : Plan.Graph}

/-! ## The three outcomes -/

/-- The input of a record that is offered is not a mapping. -/
theorem prepare_eq_malformed {e : Plan.Error}
    (hload : Plan.Document.load files content = .ok records)
    (hread : Plan.Graph.ofRecords (offered box records) = .error e) :
    prepare box files content = .error (.plan e) := by
  unfold prepare prepareRecords
  simp only [hload, hread]

/-- The graph of the records that are offered has no order. -/
theorem prepare_eq_unordered {e : Plan.Graph.OrderError}
    (hload : Plan.Document.load files content = .ok records)
    (hread : Plan.Graph.ofRecords (offered box records) = .ok g) (horder : g.orderError? = some e) :
    prepare box files content = .error (.unordered e) := by
  unfold prepare prepareRecords
  simp only [hload, hread, horder]

/-- A run starts with the graph of the records that are offered, if it has an order. -/
theorem prepare_eq_ok (hload : Plan.Document.load files content = .ok records)
    (hread : Plan.Graph.ofRecords (offered box records) = .ok g) (horder : g.orderError? = none) :
    prepare box files content = .ok (.start g) := by
  unfold prepare prepareRecords
  simp only [hload, hread, horder]

/-- The plan of a run that starts can be read. -/
theorem exists_load_of_prepare {s : State} (h : prepare box files content = .ok s) :
    ∃ records, Plan.Document.load files content = .ok records := by
  unfold prepare at h
  split at h
  · cases h
  · exact ⟨_, by assumption⟩

/-- **A run that starts** starts on a graph that collects the records that are offered. -/
theorem exists_collects_of_prepare {s : State} (h : prepare box files content = .ok s) :
    ∃ records g, Plan.Graph.Collects g (offered box records) ∧ s = .start g := by
  obtain ⟨records, hload⟩ := exists_load_of_prepare h
  have hmapping : ∀ r ∈ offered box records, r.HasMapping := by
    by_contra hnone
    push Not at hnone
    obtain ⟨_, _, _, _, -, -, -, -, hread⟩ :=
      Plan.Graph.putRecords_malformed hnone Plan.Graph.empty 0
    rw [prepare_eq_malformed hload hread] at h
    cases h
  obtain ⟨g, hread, hcollects⟩ := Plan.Graph.exists_collects hmapping
  refine ⟨records, g, hcollects, ?_⟩
  cases horder : g.orderError? with
  | some e =>
    rw [prepare_eq_unordered hload hread horder] at h
    cases h
  | none =>
    rw [prepare_eq_ok hload hread horder] at h
    exact (Except.ok.inj h).symm

/-- **What a graph makes of a run.** -/
structure StartsOn (g : Plan.Graph) (outcome : Except Error State) : Prop where
  /-- The first dependency on a missing step is an error. -/
  missing : (∃ name other, g.DependsOn name other ∧ other ∉ g.names) →
    ∃ step missing, g.FirstMissing step missing ∧
      outcome = .error (.unordered (.unknownDependency step.name missing))
  /-- If no step is missing, steps on a cycle are an error, together with those behind one. -/
  cyclic : (∀ name other, g.DependsOn name other → other ∈ g.names) →
    (∃ name, g.LeadsToCycle name) →
      ∃ members, outcome = .error (.unordered (.cycle members)) ∧ members.Sublist g.names ∧
        ∀ name, name ∈ members ↔ g.LeadsToCycle name
  /-- Else all steps remain to be done, and nothing is done yet. -/
  ready : (∀ name other, g.DependsOn name other → other ∈ g.names) →
    (∀ name, ¬ g.LeadsToCycle name) →
      outcome = .ok
        { remaining := ⟨g.names, g.names_nodup⟩, activated := ∅, done := ∅, skipped := ∅, graph := g,
          workspace := .empty }

/-- A run starts on the graph of the records that are offered. -/
theorem startsOn_of_ofRecords (hload : Plan.Document.load files content = .ok records)
    (hread : Plan.Graph.ofRecords (offered box records) = .ok g) :
    StartsOn g (prepare box files content) where
  missing h := by
    obtain ⟨step, missing, hfirst, herror⟩ := Plan.Graph.orderError?_of_missing h
    exact ⟨step, missing, hfirst, prepare_eq_unordered hload hread herror⟩
  cyclic := by
    rintro hknown ⟨name, hname⟩
    exact ⟨g.cycleMembers,
      prepare_eq_unordered hload hread (Plan.Graph.orderError?_of_leadsToCycle hknown hname),
      g.cycleMembers_sublist, fun _ => Plan.Graph.mem_cycleMembers_iff⟩
  ready hknown hfree := by
    have hmembers : g.cycleMembers = [] := List.eq_nil_iff_forall_not_mem.mpr fun name hname =>
      hfree name (Plan.Graph.mem_cycleMembers_iff.mp hname)
    exact prepare_eq_ok hload hread (Plan.Graph.orderError?_eq_none hknown hmembers)

/-- **A run starts with the runnable part of its plan**: the records whose tool is offered.  It fails
for a malformed step exactly if the input of one of them is not a mapping, and otherwise starts on
the graph that collects them. -/
theorem starts_with_runnable_part (box : Toolbox)
    (hload : Plan.Document.load files content = .ok records) :
    let kept := records.filter fun r => (box.spec? (Plan.Step.textField r "toolname")).isSome
    ((∃ index v, prepare box files content = .error (.plan (.malformedStep index v))) ↔
      ∃ r ∈ kept, ¬ r.HasMapping) ∧
    ((∀ r ∈ kept, r.HasMapping) →
      ∃ g : Plan.Graph, g.Collects kept ∧ StartsOn g (prepare box files content)) := by
  intro kept
  have hstarts : (∀ r ∈ kept, r.HasMapping) →
      ∃ g : Plan.Graph, g.Collects kept ∧ StartsOn g (prepare box files content) := by
    intro hmapping
    obtain ⟨g, hread, hcollects⟩ := Plan.Graph.exists_collects hmapping
    exact ⟨g, hcollects, startsOn_of_ofRecords hload hread⟩
  refine ⟨⟨?_, ?_⟩, hstarts⟩
  · rintro ⟨index, v, hmalformed⟩
    by_contra hnone
    push Not at hnone
    obtain ⟨g, hread, -⟩ := Plan.Graph.exists_collects hnone
    cases horder : g.orderError? with
    | some e =>
      rw [prepare_eq_unordered hload hread horder] at hmalformed
      cases hmalformed
    | none =>
      rw [prepare_eq_ok hload hread horder] at hmalformed
      cases hmalformed
  · intro hsome
    obtain ⟨earlier, -, -, v, -, -, -, -, hread⟩ :=
      Plan.Graph.putRecords_malformed hsome Plan.Graph.empty 0
    exact ⟨0 + earlier.length, v, prepare_eq_malformed hload hread⟩

/-- A step whose tool is not offered and whose input is not a mapping, and a step that waits for one
that is not there, until a later record takes its place. -/
def partlyRunnable : String :=
  "- name: a\n  toolname: u\n  input: 5\n- name: b\n  toolname: t\n  dependency: c\n" ++
    "- name: a\n  toolname: t\n  dependency: b\n- name: b\n  toolname: t\n"

theorem starts_with_runnable_part_of_partlyRunnable :
    ∃ records, Plan.Document.load .empty partlyRunnable = .ok records ∧
      let kept := records.filter fun r => (echoing.spec? (Plan.Step.textField r "toolname")).isSome
      (∀ r ∈ kept, r.HasMapping) ∧
        (∃ g : Plan.Graph, g.Collects kept ∧
          StartsOn g (prepare echoing .empty partlyRunnable)) ∧
        ∃ s, prepare echoing .empty partlyRunnable = .ok s ∧ s.graph.names = ["b", "a"] := by
  have hok : ((prepare echoing .empty partlyRunnable).toOption.any fun s =>
      s.graph.names == ["b", "a"]) = true := by
    decide +kernel
  obtain ⟨s, hs, hnames⟩ := exists_ok_of_any hok
  obtain ⟨records, hload⟩ := exists_load_of_prepare hs
  obtain ⟨hmalformed, hstarts⟩ := starts_with_runnable_part echoing hload
  have hmapping : ∀ r ∈ records.filter fun r =>
      (echoing.spec? (Plan.Step.textField r "toolname")).isSome, r.HasMapping := by
    by_contra hnone
    push Not at hnone
    obtain ⟨_, _, herror⟩ := hmalformed.mpr hnone
    rw [hs] at herror
    cases herror
  exact ⟨records, hload, hmapping, hstarts hmapping, s, hs, eq_of_beq hnames⟩

end Runbook.Run
