import Runbook.Proofs.Plan.Findings
import Runbook.Proofs.Run.Start

/-!
# The place of a malformed step

A run that does not start because the input of a record is not a mapping tells the place of that
record.  The places are counted when the records whose tool is not offered have been left out
already, so the number that is told is how many *offered* records stand before the malformed one
(`malformed_step_counts_offered`).  In the plan itself the record stands further down whenever one
before it is left out (`malformed_step_is_misplaced`).
-/

namespace Runbook.Run
variable {box : Toolbox} {files : Files} {content : String} {records : List Plan.Record}

/-- The tool of a record is offered. -/
abbrev Offers (box : Toolbox) (r : Plan.Record) : Prop :=
  box.offers (Plan.Step.textField r "toolname") = true

/-- **The first record of a plan that keeps a run from starting**, and those before it. -/
structure FirstMalformed (box : Toolbox) (records earlier : List Plan.Record)
    (r : Plan.Record) : Prop where
  /-- Where the record stands. -/
  splits : ∃ later, records = earlier ++ r :: later
  /-- Its tool is offered. -/
  offers : Offers box r
  /-- Its input is not a mapping. -/
  malformed : ¬ r.HasMapping
  /-- Before it, only records that are left out have such an input. -/
  before : ∀ other ∈ earlier, Offers box other → other.HasMapping

/-- The first malformed record of a plan is the first one of those that are kept. -/
theorem FirstMalformed.offered_eq {earlier : List Plan.Record} {r : Plan.Record}
    (h : FirstMalformed box records earlier r) :
    (∃ later, offered box records = offered box earlier ++ r :: later) ∧
      ∀ other ∈ offered box earlier, other.HasMapping := by
  obtain ⟨later, rfl⟩ := h.splits
  refine ⟨⟨offered box later, ?_⟩, fun other hother => ?_⟩
  · unfold offered
    rw [List.filter_append, List.filter_cons, if_pos h.offers]
  · obtain ⟨hin, hoffers⟩ := List.mem_filter.mp hother
    exact h.before other hin hoffers

/-- The first malformed record of those that are kept is the first one of the plan. -/
theorem exists_firstMalformed {kept rest : List Plan.Record} {r : Plan.Record}
    (hsplit : offered box records = kept ++ r :: rest) (hkept : ∀ other ∈ kept, other.HasMapping)
    (hr : ¬ r.HasMapping) :
    ∃ earlier, FirstMalformed box records earlier r ∧ offered box earlier = kept := by
  obtain ⟨front, back, rfl, hfront, hback⟩ := List.filter_eq_append_iff.mp hsplit
  obtain ⟨gap, later, rfl, hgap, hoffers, -⟩ := List.filter_eq_cons_iff.mp hback
  -- what stands between the last kept record and this one is left out
  have hearlier : offered box (front ++ gap) = kept := by
    unfold offered
    rw [List.filter_append, hfront, List.filter_eq_nil_iff.mpr hgap, List.append_nil]
  refine ⟨front ++ gap, ⟨⟨later, (List.append_assoc _ _ _).symm⟩, hoffers, hr, ?_⟩, hearlier⟩
  intro other hother hoffers
  exact hkept other (hearlier ▸ List.mem_filter.mpr ⟨hother, hoffers⟩)

/-- A run fails for a malformed step exactly if the graph of the offered records does. -/
theorem prepare_eq_malformed_iff {index : Nat} {v : Json}
    (hload : Plan.Document.load files content = .ok records) :
    prepare box files content = .error (.plan (.malformedStep index v)) ↔
      Plan.Graph.ofRecords (offered box records) = .error (.malformedStep index v) := by
  refine ⟨fun h => ?_, prepare_eq_malformed hload⟩
  cases hread : Plan.Graph.ofRecords (offered box records) with
  | error e =>
    rw [prepare_eq_malformed hload hread] at h
    cases h
    rfl
  | ok g =>
    cases horder : g.orderError? with
    | some e =>
      rw [prepare_eq_unordered hload hread horder] at h
      cases h
    | none =>
      rw [prepare_eq_ok hload hread horder] at h
      cases h

/-- **The first malformed record is told**, with the number of the offered records before it. -/
theorem FirstMalformed.prepare_eq {earlier : List Plan.Record} {r : Plan.Record} {v : Json}
    (h : FirstMalformed box records earlier r)
    (hload : Plan.Document.load files content = .ok records) (hget : r.get? "input" = some v) :
    prepare box files content =
      .error (.plan (.malformedStep (offered box earlier).length v)) := by
  obtain ⟨⟨later, hsplit⟩, hearlier⟩ := h.offered_eq
  exact (prepare_eq_malformed_iff hload).mpr
    (Plan.Graph.ofRecords_eq_malformed_iff.mpr
      ⟨_, r, later, hsplit, hearlier, h.malformed, hget, rfl⟩)

/-- **A malformed step is numbered among the offered ones.**  A run fails for a malformed step
exactly if some offered record has an input that is not a mapping; what is told is the input of the
first such record and how many offered records stand before it.  This is the place of the record in
the plan exactly if no record before it is left out. -/
theorem malformed_step_counts_offered (box : Toolbox)
    (hload : Plan.Document.load files content = .ok records) :
    (∀ index v, prepare box files content = .error (.plan (.malformedStep index v)) ↔
      ∃ earlier r, FirstMalformed box records earlier r ∧ r.get? "input" = some v ∧
        index = (offered box earlier).length) ∧
    ∀ earlier r v, FirstMalformed box records earlier r → r.get? "input" = some v →
      (prepare box files content = .error (.plan (.malformedStep earlier.length v)) ↔
        ∀ other ∈ earlier, Offers box other) := by
  refine ⟨fun index v => ⟨fun h => ?_, ?_⟩, fun earlier r v hfirst hget => ?_⟩
  · obtain ⟨kept, r, rest, hsplit, hkept, hr, hget, rfl⟩ :=
      Plan.Graph.ofRecords_eq_malformed_iff.mp ((prepare_eq_malformed_iff hload).mp h)
    obtain ⟨earlier, hfirst, rfl⟩ := exists_firstMalformed hsplit hkept hr
    exact ⟨earlier, r, hfirst, hget, rfl⟩
  · rintro ⟨earlier, r, hfirst, hget, rfl⟩
    exact hfirst.prepare_eq hload hget
  · rw [hfirst.prepare_eq hload hget]
    simp only [Except.error.injEq, Error.plan.injEq, Plan.Error.malformedStep.injEq, and_true]
    exact List.length_filter_eq_length_iff

/-- A step whose tool is not offered, and one whose input is not a mapping. -/
def malformedSecond : String :=
  "- name: a\n  toolname: u\n- name: b\n  toolname: t\n  input: 5\n"

theorem offered_singleton {r : Plan.Record} (h : ¬ Offers box r) : offered box [r] = [] :=
  List.filter_eq_nil_iff.mpr (List.forall_mem_singleton.mpr h)

/-- The second record of that plan is the one that keeps a run from starting. -/
theorem exists_load_malformedSecond : ∃ first second v,
    Plan.Document.load .empty malformedSecond = .ok [first, second] ∧
      ¬ Offers echoing first ∧ first.HasMapping ∧
      FirstMalformed echoing [first, second] [first] second ∧ second.get? "input" = some v := by
  have hok : ((Plan.Document.load .empty malformedSecond).toOption.any fun records =>
      records.map (fun r => (decide (Offers echoing r), decide r.HasMapping)) ==
        [(false, true), (true, false)]) = true := by
    decide +kernel
  obtain ⟨records, hload, hrecords⟩ := exists_ok_of_any hok
  obtain ⟨first, _, rfl, hfirst, hrest⟩ := List.map_eq_cons_iff.mp (eq_of_beq hrecords)
  obtain ⟨second, _, rfl, hsecond, hnil⟩ := List.map_eq_cons_iff.mp hrest
  obtain rfl := List.map_eq_nil_iff.mp hnil
  obtain ⟨hleft, hmapping⟩ := Prod.mk.inj hfirst
  obtain ⟨hoffers, hmalformed⟩ := Prod.mk.inj hsecond
  have hleft := of_decide_eq_false hleft
  obtain ⟨v, hget, -⟩ := Plan.Graph.ofRecord_malformed (of_decide_eq_false hmalformed) 0
  refine ⟨first, second, v, hload, hleft, of_decide_eq_true hmapping, ?_, hget⟩
  exact
    { splits := ⟨[], rfl⟩
      offers := of_decide_eq_true hoffers
      malformed := of_decide_eq_false hmalformed
      before := List.forall_mem_singleton.mpr fun h => absurd h hleft }

theorem malformed_step_counts_offered_of_malformedSecond :
    ∃ records v, Plan.Document.load .empty malformedSecond = .ok records ∧
      prepare echoing .empty malformedSecond = .error (.plan (.malformedStep 0 v)) ∧
      ∃ earlier r, FirstMalformed echoing records earlier r ∧ r.get? "input" = some v ∧
        earlier.length = 1 ∧
        prepare echoing .empty malformedSecond ≠
          .error (.plan (.malformedStep earlier.length v)) := by
  obtain ⟨first, second, v, hload, hleft, -, hmalformed, hget⟩ := exists_load_malformedSecond
  obtain ⟨htold, hplace⟩ := malformed_step_counts_offered echoing hload
  refine ⟨_, v, hload, (htold 0 v).mpr ⟨[first], second, hmalformed, hget, ?_⟩,
    [first], second, hmalformed, hget, rfl, fun h => ?_⟩
  · rw [offered_singleton hleft]
    rfl
  · exact hleft ((hplace [first] second v hmalformed hget).mp h first (List.mem_singleton_self _))

/-- **A malformed step is misplaced**: what is told is the place of a record without fault.  Read
without leaving anything out, the same records give the place of the malformed one. -/
theorem malformed_step_is_misplaced :
    ∃ first second v, Plan.Document.load .empty malformedSecond = .ok [first, second] ∧
      prepare echoing .empty malformedSecond = .error (.plan (.malformedStep 0 v)) ∧
      first.HasMapping ∧ ¬ second.HasMapping ∧
      Plan.Graph.ofRecords [first, second] = .error (.malformedStep 1 v) := by
  obtain ⟨first, second, v, hload, hleft, hmapping, hmalformed, hget⟩ := exists_load_malformedSecond
  refine ⟨first, second, v, hload, ?_, hmapping, hmalformed.malformed, ?_⟩
  · have htold := hmalformed.prepare_eq hload hget
    rwa [offered_singleton hleft] at htold
  · exact Plan.Graph.ofRecords_eq_malformed_iff.mpr ⟨[first], second, [], rfl,
      List.forall_mem_singleton.mpr hmapping, hmalformed.malformed, hget, rfl⟩

end Runbook.Run
