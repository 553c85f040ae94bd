import Mathlib.Data.List.Forall2
import Runbook.Plan.Check
import Runbook.Proofs.Plan.Order
import Runbook.Proofs.Plan.Rules

/-!
# Reading records

What a record says is what reading it finds: `Check.textOf?` finds what a field says,
`Step.dependencyNames` what the record lists, and a record whose input is a mapping describes a
step wherever it stands (`Record.Describes`).  So the steps of a graph depend on each other as the
records do that they were read from (`Graph.dependsOn_ofSteps`).
-/

namespace Runbook

theorem Json.says_iff {v : Json} {text : String} : v.Says text ↔
    v.isNull = false ∧ v.display = text ∧ Text.isBlankText text = false := by
  rw [isNull_eq_false_iff, Text.isBlankText_eq_false_iff]
  rfl

namespace Plan
variable {r : Record} {field text other : String}

/-! ## Texts -/

theorem Step.field?_eq_some_iff {v : Json} :
    field? r field = some v ↔ r.get? field = some v ∧ v ≠ .null := by
  unfold field?
  split
  · rename_i hnull
    rw [hnull]
    simp [eq_comm]
  · rename_i hnull
    exact ⟨fun h => ⟨h, fun heq => hnull (heq ▸ h)⟩, And.left⟩

theorem Record.Says.unique (h : r.Says field text) (h' : r.Says field other) : text = other := by
  obtain ⟨v, hv, hsays⟩ := h
  obtain ⟨w, hw, hsays'⟩ := h'
  obtain rfl : v = w := Option.some.inj (hv.symm.trans hw)
  exact hsays.unique hsays'

theorem Record.Says.textField_eq (h : r.Says field text) : Step.textField r field = text := by
  obtain ⟨v, hv, -, hdisplay, -⟩ := h
  unfold Step.textField
  rw [hv]
  exact hdisplay

/-- **The text of a field is what the field says.** -/
theorem Check.textOf?_eq_some_iff : textOf? r field = some text ↔ r.Says field text := by
  unfold textOf?
  constructor
  · intro h
    split at h
    · cases h
    · rename_i v hfield
      obtain ⟨hget, hnull⟩ := Step.field?_eq_some_iff.mp hfield
      split at h
      · cases h
      · rename_i hblank
        obtain rfl : v.display = text := Option.some.inj h
        exact ⟨v, hget, hnull, rfl,
          Text.isBlankText_eq_false_iff.mp (Bool.eq_false_iff.mpr hblank)⟩
  · rintro ⟨v, hget, hsays⟩
    obtain ⟨-, rfl, hshows⟩ := Json.says_iff.mp hsays
    rw [Step.field?_eq_some_iff.mpr ⟨hget, hsays.1⟩]
    show (if Text.isBlankText v.display then none else some v.display) = some v.display
    rw [hshows]
    rfl

/-! ## Dependencies -/

/-- The texts of the items that are neither `null` nor blank are what the items say. -/
theorem mem_texts {items : List Json} : text ∈ ((items.filter fun v => !v.isNull).map
    Json.display).filter (fun s => !Text.isBlankText s) ↔ ∃ v ∈ items, v.Says text := by
  simp only [List.mem_filter, List.mem_map, Bool.not_eq_true', Json.says_iff]
  constructor
  · rintro ⟨⟨v, ⟨hv, hnull⟩, hdisplay⟩, hblank⟩
    exact ⟨v, hv, hnull, hdisplay, hblank⟩
  · rintro ⟨v, hv, hnull, hdisplay, hblank⟩
    exact ⟨⟨v, ⟨hv, hnull⟩, hdisplay⟩, hblank⟩

/-- **The names that are read from a dependency field are those that the record lists.** -/
theorem mem_dependencyNames {name : String} :
    name ∈ Step.dependencyNames (r.get? "dependency") ↔ r.Lists name := by
  unfold Step.dependencyNames
  rw [NameSet.mem_ofList, mem_texts]
  constructor
  · rintro ⟨v, hv, hname⟩
    refine ⟨v, ?_, hname⟩
    split at hv
    · cases hv
    · cases hv
    · rename_i hget
      exact .item hget hv
    · rename_i w hnotList hget
      obtain rfl := List.mem_singleton.mp hv
      exact .alone hget hnotList
  · rintro ⟨v, hentry, hname⟩
    refine ⟨v, ?_, hname⟩
    cases hentry with
    | item hget hv =>
      rw [hget]
      exact hv
    | alone hget hnotList =>
      rw [hget]
      cases v with
      | null => exact absurd rfl hname.1
      | array items => exact absurd rfl (hnotList items)
      | _ => exact List.mem_singleton_self _

/-! ## Steps -/

/-- **The step that a record describes**, wherever the record stands. -/
def Record.Describes (r : Record) (step : Step) : Prop :=
  ∀ index, Step.ofRecord index r = .ok step

theorem Record.HasMapping.exists_describes (h : r.HasMapping) : ∃ step, r.Describes step := by
  have hinput : ∃ input, ∀ index, Step.inputOf index (r.get? "input") = .ok input := by
    cases hget : r.get? "input" with
    | none => exact ⟨[], fun _ => rfl⟩
    | some v =>
      rcases h v hget with rfl | ⟨members, rfl⟩
      · exact ⟨[], fun _ => rfl⟩
      · exact ⟨members, fun _ => rfl⟩
  obtain ⟨input, hinput⟩ := hinput
  -- the place of a record is only told by an error
  have hread : ∀ index, Step.ofRecord index r = Step.ofRecord 0 r := fun index => by
    unfold Step.ofRecord
    rw [hinput index, hinput 0]
  cases hstep : Step.ofRecord 0 r with
  | ok step => exact ⟨step, fun index => (hread index).trans hstep⟩
  | error e =>
    unfold Step.ofRecord at hstep
    rw [hinput 0] at hstep
    cases hstep

namespace Record.Describes
variable {step : Step}

theorem fields_eq (h : r.Describes step) : step.name = Step.textField r "name" ∧
    step.dependencies = Step.dependencyNames (r.get? "dependency") := by
  have hread := h 0
  unfold Step.ofRecord at hread
  split at hread
  · cases hread
  · cases hread
    exact ⟨rfl, rfl⟩

theorem tool_eq (h : r.Describes step) : step.tool = Step.textField r "toolname" := by
  have hread := h 0
  unfold Step.ofRecord at hread
  split at hread
  · cases hread
  · cases hread
    rfl

theorem says_name (h : r.Describes step) (hnamed : ∃ name, r.Says "name" name) :
    r.Says "name" step.name := by
  obtain ⟨name, hname⟩ := hnamed
  rwa [h.fields_eq.1, hname.textField_eq]

theorem mem_dependencies (h : r.Describes step) {name : String} :
    name ∈ step.dependencies ↔ r.Lists name := by
  rw [h.fields_eq.2, mem_dependencyNames]

/-- The values of the input of a step are those that its record gives. -/
theorem gives (h : r.Describes step) {e : String × Json} (he : e ∈ step.input)
    (hvalue : e.2 ≠ .null) : r.Gives e.1 e.2 := by
  have hread := h 0
  unfold Step.ofRecord Step.inputOf at hread
  cases hget : r.get? "input" with
  | none =>
    rw [hget] at hread
    cases hread
    exact absurd he List.not_mem_nil
  | some v =>
    rw [hget] at hread
    cases v with
    | null =>
      cases hread
      exact absurd he List.not_mem_nil
    | object members =>
      cases hread
      exact ⟨members, hget, he, hvalue⟩
    | _ => cases hread

/-- What the input of a step refers to is what its record uses. -/
theorem uses (h : r.Describes step) {x : Reference} (hx : x ∈ Reference.inMembers step.input) :
    r.Uses x := by
  obtain ⟨e, he, hrefers⟩ := (Reference.mem_inMembers step.input).mp hx
  refine ⟨e.1, e.2, h.gives he fun hnull => ?_, hrefers⟩
  obtain ⟨s, hoccurs, -⟩ := hnull ▸ hrefers
  cases hoccurs

end Record.Describes

section Steps
variable {records : List Record} {steps : List Step}

theorem exists_steps (h : ∀ r ∈ records, r.HasMapping) :
    ∃ steps, List.Forall₂ Record.Describes records steps := by
  induction records with
  | nil => exact ⟨[], .nil⟩
  | cons r rest ih =>
    obtain ⟨hr, hrest⟩ := List.forall_mem_cons.mp h
    obtain ⟨step, hstep⟩ := hr.exists_describes
    obtain ⟨steps, hsteps⟩ := ih hrest
    exact ⟨step :: steps, .cons hstep hsteps⟩

theorem exists_describes_of_mem (h : List.Forall₂ Record.Describes records steps) :
    (∀ r ∈ records, ∃ step ∈ steps, r.Describes step) ∧
      ∀ step ∈ steps, ∃ r ∈ records, r.Describes step := by
  induction h with
  | nil =>
    exact ⟨fun _ hr => absurd hr List.not_mem_nil, fun _ hstep => absurd hstep List.not_mem_nil⟩
  | cons hstep _ ih =>
    constructor
    · refine List.forall_mem_cons.mpr ⟨⟨_, List.mem_cons_self, hstep⟩, fun r hr => ?_⟩
      obtain ⟨step, hmem, hr⟩ := ih.1 r hr
      exact ⟨step, List.mem_cons_of_mem _ hmem, hr⟩
    · refine List.forall_mem_cons.mpr ⟨⟨_, List.mem_cons_self, hstep⟩, fun step hstep => ?_⟩
      obtain ⟨r, hmem, hr⟩ := ih.2 step hstep
      exact ⟨r, List.mem_cons_of_mem _ hmem, hr⟩

theorem filterMap_ofRecord (h : List.Forall₂ Record.Describes records steps) :
    records.filterMap (fun r => (Step.ofRecord 0 r).toOption) = steps := by
  induction h with
  | nil => rfl
  | cons hstep _ ih =>
    rw [List.filterMap_cons, hstep 0, ih]
    rfl

theorem map_name (h : List.Forall₂ Record.Describes records steps) :
    steps.map Step.name = records.map fun r => Step.textField r "name" := by
  induction h with
  | nil => rfl
  | cons hstep _ ih => rw [List.map_cons, List.map_cons, ih, hstep.fields_eq.1]

namespace Graph

theorem putRecords_eq (h : List.Forall₂ Record.Describes records steps) (g : Graph) (index : Nat) :
    g.putRecords index records = .ok (steps.foldl put g) := by
  induction h generalizing g index with
  | nil => rfl
  | cons hstep _ ih =>
    unfold putRecords
    rw [hstep index]
    exact ih _ _

/-- **The steps of a graph depend on each other as the records do** that describe them. -/
theorem dependsOn_ofSteps (h : List.Forall₂ Record.Describes records steps)
    (hnamed : ∀ r ∈ records, ∃ name, r.Says "name" name) (hnodup : (steps.map Step.name).Nodup) :
    (ofSteps steps).DependsOn = RecordsDepend records := by
  obtain ⟨hdescribed, hdescribes⟩ := exists_describes_of_mem h
  funext name other
  apply propext
  unfold DependsOn
  rw [steps_ofSteps hnodup]
  constructor
  · rintro ⟨step, hstep, rfl, hdep⟩
    obtain ⟨r, hr, hread⟩ := hdescribes step hstep
    exact ⟨r, hr, hread.says_name (hnamed r hr), hread.mem_dependencies.mp hdep⟩
  · rintro ⟨r, hr, hname, hlists⟩
    obtain ⟨step, hstep, hread⟩ := hdescribed r hr
    exact ⟨step, hstep, (hread.says_name ⟨name, hname⟩).unique hname,
      hread.mem_dependencies.mpr hlists⟩

end Graph

end Steps

end Plan

end Runbook
