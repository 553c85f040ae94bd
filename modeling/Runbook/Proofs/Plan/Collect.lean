import Mathlib.Data.List.Induction
import Runbook.Proofs.Plan.Record

/-!
# The graph of a list of records

Records are read one after another, and a record of a name that is there already takes the place of
the step of that name.  So the steps have the names of the records, in the order in which the names
first appear, and each step is the one that the last record of its name describes
(`Graph.Collects`, kept by every record that is read).  Reading stops at the first record whose
input is not a mapping.
-/

namespace Runbook.Plan

/-- A name that is there already does not appear anew. -/
theorem eraseDups_concat (names : List String) (name : String) : (names ++ [name]).eraseDups =
    if name ∈ names then names.eraseDups else names.eraseDups ++ [name] := by
  rw [List.eraseDups_append]
  by_cases h : name ∈ names
  · have hnone : [name].removeAll names = [] := by simp [List.removeAll, h]
    rw [hnone, if_pos h]
    exact List.append_nil _
  · have hone : [name].removeAll names = [name] := by simp [List.removeAll, h]
    rw [hone, if_neg h]
    rfl

theorem eraseDups_eq_self {names : List String} (h : names.Nodup) : names.eraseDups = names := by
  induction names using List.reverseRecOn with
  | nil => rfl
  | append_singleton names name ih =>
    obtain ⟨hnames, -, hnew⟩ := List.nodup_append.mp h
    have hnot : name ∉ names := fun hin => hnew name hin name (List.mem_singleton_self name) rfl
    rw [eraseDups_concat, if_neg hnot, ih hnames]

/-- **The last record of a name** in a list. -/
def LastNamed (records : List Record) (name : String) (r : Record) : Prop :=
  ∃ earlier later, records = earlier ++ r :: later ∧ Step.textField r "name" = name ∧
    ∀ other ∈ later, Step.textField other "name" ≠ name

section LastNamed
variable {records : List Record} {name : String} {r last : Record}

theorem LastNamed.concat_self (h : Step.textField r "name" = name) :
    LastNamed (records ++ [r]) name r :=
  ⟨records, [], rfl, h, fun _ hother => absurd hother List.not_mem_nil⟩

/-- A record of another name changes nothing. -/
theorem LastNamed.concat (h : LastNamed records name last) (hr : Step.textField r "name" ≠ name) :
    LastNamed (records ++ [r]) name last := by
  obtain ⟨earlier, later, rfl, hname, hlater⟩ := h
  refine ⟨earlier, later ++ [r], List.append_assoc _ _ _, hname, fun other hother => ?_⟩
  rcases List.mem_append.mp hother with hother | hother
  · exact hlater other hother
  · exact List.mem_singleton.mp hother ▸ hr

end LastNamed

namespace Graph
variable {g : Graph} {records seen rest : List Record} {r : Record} {step other : Step}

/-! ## One step more -/

theorem mem_putStep_self (step : Step) (steps : List Step) : step ∈ putStep step steps := by
  induction steps with
  | nil => exact List.mem_singleton_self step
  | cons first rest ih =>
    unfold putStep
    split
    · exact List.mem_cons_self
    · exact List.mem_cons_of_mem _ ih

theorem eq_or_mem_of_mem_putStep {steps : List Step} (h : other ∈ putStep step steps) :
    other = step ∨ other ∈ steps := by
  induction steps with
  | nil => exact Or.inl (List.mem_singleton.mp h)
  | cons first rest ih =>
    unfold putStep at h
    split at h
    · exact (List.mem_cons.mp h).imp_right (List.mem_cons_of_mem _)
    · rcases List.mem_cons.mp h with rfl | hrest
      · exact Or.inr List.mem_cons_self
      · exact (ih hrest).imp_right (List.mem_cons_of_mem _)

/-- **A step that is put leaves the steps of other names.** -/
theorem eq_or_mem_of_mem_put (h : other ∈ (g.put step).steps) :
    other = step ∨ other ∈ g.steps ∧ other.name ≠ step.name := by
  by_cases hname : other.name = step.name
  · exact Or.inl (step_eq_of_name h (mem_putStep_self step g.steps) hname)
  · rcases eq_or_mem_of_mem_putStep h with rfl | hmem
    · exact Or.inl rfl
    · exact Or.inr ⟨hmem, hname⟩

theorem names_put (g : Graph) (step : Step) : (g.put step).names =
    if step.name ∈ g.names then g.names else g.names ++ [step.name] :=
  names_putStep step g.steps

/-! ## One record after another -/

/-- **The graph holds the steps that records describe**, one for each name. -/
structure Collects (g : Graph) (records : List Record) : Prop where
  /-- The names are those of the records, each where it first appears. -/
  names_eq : g.names = (records.map fun r => Step.textField r "name").eraseDups
  /-- A step is what the last record of its name describes. -/
  described : ∀ step ∈ g.steps, ∃ r, LastNamed records step.name r ∧ r.Describes step

namespace Collects

theorem empty : Graph.empty.Collects [] :=
  ⟨rfl, fun _ hstep => absurd hstep List.not_mem_nil⟩

/-- **A record that is read is collected.** -/
theorem put (h : g.Collects seen) (hr : r.Describes step) :
    (g.put step).Collects (seen ++ [r]) := by
  have hname : Step.textField r "name" = step.name := hr.fields_eq.1.symm
  constructor
  · rw [names_put, List.map_append, List.map_singleton, hname, eraseDups_concat, h.names_eq]
    simp only [List.mem_eraseDups]
  · intro other hother
    rcases eq_or_mem_of_mem_put hother with rfl | ⟨hold, hne⟩
    · exact ⟨r, .concat_self hname, hr⟩
    · obtain ⟨last, hlast, hdescribes⟩ := h.described other hold
      exact ⟨last, hlast.concat fun heq => hne (heq.symm.trans hname), hdescribes⟩

theorem putRecords (h : g.Collects seen) (hrest : ∀ r ∈ rest, r.HasMapping) (index : Nat) :
    ∃ g', g.putRecords index rest = .ok g' ∧ g'.Collects (seen ++ rest) := by
  induction rest generalizing g seen index with
  | nil => exact ⟨g, rfl, (List.append_nil seen).symm ▸ h⟩
  | cons r rest ih =>
    obtain ⟨hr, hrest⟩ := List.forall_mem_cons.mp hrest
    obtain ⟨step, hstep⟩ := hr.exists_describes
    obtain ⟨g', hread, hcollects⟩ := ih (h.put hstep) hrest (index + 1)
    refine ⟨g', ?_, ?_⟩
    · unfold Graph.putRecords
      rw [hstep index]
      exact hread
    · rwa [List.append_assoc] at hcollects

end Collects

/-- **Records whose inputs are mappings give a graph.** -/
theorem exists_collects (h : ∀ r ∈ records, r.HasMapping) :
    ∃ g, ofRecords records = .ok g ∧ g.Collects records :=
  Collects.empty.putRecords h 0

/-! ## A record that describes no step -/

/-- A record whose input is not a mapping is refused, with its place and its input. -/
theorem ofRecord_malformed (h : ¬ r.HasMapping) (index : Nat) :
    ∃ v, r.get? "input" = some v ∧ Step.ofRecord index r = .error (.malformedStep index v) := by
  unfold Record.HasMapping at h
  push Not at h
  obtain ⟨v, hget, hnull, hobject⟩ := h
  refine ⟨v, hget, ?_⟩
  have hinput : Step.inputOf index (r.get? "input") = .error (.malformedStep index v) := by
    rw [hget]
    cases v with
    | null => exact absurd rfl hnull
    | object members => exact absurd rfl (hobject members)
    | _ => rfl
  unfold Step.ofRecord
  rw [hinput]

/-- Reading stops at a record whose input is not a mapping. -/
theorem putRecords_append_malformed {earlier : List Record} {v : Json}
    (hearlier : ∀ other ∈ earlier, other.HasMapping) (hr : ¬ r.HasMapping)
    (hget : r.get? "input" = some v) (later : List Record) (g : Graph) (index : Nat) :
    g.putRecords index (earlier ++ r :: later) =
      .error (.malformedStep (index + earlier.length) v) := by
  induction earlier generalizing g index with
  | nil =>
    obtain ⟨w, hget', hread⟩ := ofRecord_malformed hr index
    obtain rfl := Option.some.inj (hget'.symm.trans hget)
    rw [List.nil_append]
    unfold putRecords
    rw [hread]
    rfl
  | cons first earlier ih =>
    obtain ⟨hfirst, hearlier⟩ := List.forall_mem_cons.mp hearlier
    obtain ⟨step, hstep⟩ := hfirst.exists_describes
    rw [List.cons_append]
    unfold putRecords
    rw [hstep index, List.length_cons, Nat.add_comm earlier.length, ← Nat.add_assoc]
    exact ih hearlier (g.put step) (index + 1)

/-- Of the records whose inputs are not mappings there is a first one. -/
theorem exists_first_malformed (h : ∃ r ∈ records, ¬ r.HasMapping) :
    ∃ earlier r later, records = earlier ++ r :: later ∧ (∀ other ∈ earlier, other.HasMapping) ∧
      ¬ r.HasMapping := by
  induction records with
  | nil =>
    obtain ⟨r, hr, -⟩ := h
    cases hr
  | cons first rest ih =>
    by_cases hfirst : first.HasMapping
    · have hrest := ((List.exists_mem_cons_iff _ _ _).mp h).resolve_left (not_not_intro hfirst)
      obtain ⟨earlier, r, later, rfl, hearlier, hr⟩ := ih hrest
      exact ⟨first :: earlier, r, later, rfl, List.forall_mem_cons.mpr ⟨hfirst, hearlier⟩, hr⟩
    · exact ⟨[], first, rest, rfl, List.forall_mem_nil _, hfirst⟩

/-- **Reading stops at the first record whose input is not a mapping.** -/
theorem putRecords_malformed (h : ∃ r ∈ records, ¬ r.HasMapping) (g : Graph) (index : Nat) :
    ∃ earlier r later v, records = earlier ++ r :: later ∧ (∀ r ∈ earlier, r.HasMapping) ∧
      r.get? "input" = some v ∧ ¬ r.HasMapping ∧
        g.putRecords index records = .error (.malformedStep (index + earlier.length) v) := by
  obtain ⟨earlier, r, later, rfl, hearlier, hr⟩ := exists_first_malformed h
  obtain ⟨v, hget, -⟩ := ofRecord_malformed hr index
  exact ⟨earlier, r, later, v, rfl, hearlier, hget, hr,
    putRecords_append_malformed hearlier hr hget later g index⟩

/-- **A list is refused at its first record whose input is not a mapping**, with the place of that
record. -/
theorem ofRecords_eq_malformed_iff {index : Nat} {v : Json} :
    ofRecords records = .error (.malformedStep index v) ↔
      ∃ earlier r later, records = earlier ++ r :: later ∧ (∀ other ∈ earlier, other.HasMapping) ∧
        ¬ r.HasMapping ∧ r.get? "input" = some v ∧ index = earlier.length := by
  constructor
  · intro hread
    have hsome : ∃ r ∈ records, ¬ r.HasMapping := by
      by_contra hnone
      push Not at hnone
      obtain ⟨g, hok, -⟩ := exists_collects hnone
      rw [hok] at hread
      cases hread
    obtain ⟨earlier, r, later, w, hrecords, hearlier, hget, hr, herror⟩ :=
      putRecords_malformed hsome empty 0
    rw [Nat.zero_add] at herror
    cases herror.symm.trans hread
    exact ⟨earlier, r, later, hrecords, hearlier, hr, hget, rfl⟩
  · rintro ⟨earlier, r, later, rfl, hearlier, hr, hget, rfl⟩
    have hread := putRecords_append_malformed hearlier hr hget later empty 0
    rwa [Nat.zero_add] at hread

end Graph

end Runbook.Plan
