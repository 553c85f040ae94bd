import Mathlib.Data.List.Induction
import Mathlib.Data.List.Nodup
import Runbook.Proofs.Plan.Cycle
import Runbook.Proofs.Plan.Record

/-!
# What a check finds

A check finds something unless the records keep every rule.  Each kind of finding is taken by
itself, for records by whatever names (`Table Record`); the rules hold together because names are
looked at first: of complete records with distinct names all are known (`Check.known_eq`), so
dependencies, fields and cycles are looked up among all of them.
-/

namespace Runbook.Plan
variable {box : Toolbox} {records : List Record} {table : Table Record} {r : Record}

theorem Record.Calls.unique {spec other : Tool.Spec} (h : r.Calls box spec)
    (h' : r.Calls box other) : spec = other := by
  obtain ⟨tool, htool, hspec⟩ := h
  obtain ⟨tool', htool', hother⟩ := h'
  obtain rfl := htool.unique htool'
  exact Option.some.inj (hspec.symm.trans hother)

namespace Check

/-! ## Names -/

theorem isNone_textOf?_eq_false_iff {field : String} :
    (textOf? r field).isNone = false ↔ ∃ text, r.Says field text := by
  simp only [← textOf?_eq_some_iff]
  cases textOf? r field <;> simp

theorem nameNotes_eq_nil_iff : nameNotes table r = [] ↔
    r.Complete ∧ ∀ name, r.Says "name" name → name ∉ table.keys := by
  unfold nameNotes Record.Complete
  rw [List.append_eq_nil_iff]
  refine and_congr ?_ ?_
  · rw [← isNone_textOf?_eq_false_iff, ← isNone_textOf?_eq_false_iff, ← Bool.or_eq_false_iff]
    cases (textOf? r "name").isNone || (textOf? r "toolname").isNone <;> simp
  · simp only [← textOf?_eq_some_iff, ← Table.contains_iff]
    cases textOf? r "name" with
    | none => simp
    | some name => cases table.contains name <;> simp

theorem known_concat : known (records ++ [r]) =
    match textOf? r "name", textOf? r "toolname" with
    | some name, some _ =>
      if (known records).contains name then known records else (known records).put name r
    | _, _ => known records := by
  unfold known
  rw [List.foldl_append]
  rfl

theorem mem_keys_known_concat (hr : r.Complete) {name : String} :
    name ∈ (known (records ++ [r])).keys ↔ name ∈ (known records).keys ∨ r.Says "name" name := by
  obtain ⟨⟨own, hown⟩, tool, htool⟩ := hr
  have hsays : r.Says "name" name ↔ name = own := ⟨fun h => h.unique hown, fun h => h ▸ hown⟩
  rw [known_concat, textOf?_eq_some_iff.mpr hown, textOf?_eq_some_iff.mpr htool, hsays]
  simp only
  split
  · rename_i hcontains
    rw [Table.contains_iff] at hcontains
    exact ⟨Or.inl, fun h => h.elim id fun heq => heq ▸ hcontains⟩
  · rename_i hcontains
    rw [Table.contains_iff] at hcontains
    rw [Table.keys_put_of_not_mem hcontains, List.mem_append, List.mem_singleton]

/-- **Nothing is wrong with the names of records** that are complete and whose names are new, each
to those before it. -/
theorem allNameNotes_eq_nil_iff (before : List Record) : allNameNotes before records = [] ↔
    (∀ r ∈ records, r.Complete) ∧ records.Pairwise Record.Apart ∧
      ∀ r ∈ records, ∀ name, r.Says "name" name → name ∉ (known before).keys := by
  induction records generalizing before with
  | nil => simp [allNameNotes]
  | cons r rest ih =>
    rw [allNameNotes, List.append_eq_nil_iff, nameNotes_eq_nil_iff, ih, List.forall_mem_cons,
      List.pairwise_cons, List.forall_mem_cons]
    constructor
    · rintro ⟨⟨hr, hnew⟩, hrest, hapart, hnews⟩
      simp only [mem_keys_known_concat hr, not_or] at hnews
      exact ⟨⟨hr, hrest⟩,
        ⟨fun r' hr' name hname hname' => (hnews r' hr' name hname').2 hname, hapart⟩,
        hnew, fun r' hr' name hname => (hnews r' hr' name hname).1⟩
    · rintro ⟨⟨hr, hrest⟩, ⟨hfirst, hapart⟩, hnew, hnews⟩
      refine ⟨⟨hr, hnew⟩, hrest, hapart, fun r' hr' name hname => ?_⟩
      rw [mem_keys_known_concat hr, not_or]
      exact ⟨hnews r' hr' name hname, fun hown => hfirst r' hr' name hown hname⟩

section Known
variable (hcomplete : ∀ r ∈ records, r.Complete) (hapart : records.Pairwise Record.Apart)
include hcomplete hapart

theorem nodup_names : (records.map fun r => Step.textField r "name").Nodup := by
  refine List.pairwise_map.mpr (hapart.imp_of_mem fun {r r'} hr hr' hne heq => ?_)
  obtain ⟨name, hname⟩ := (hcomplete r hr).1
  obtain ⟨name', hname'⟩ := (hcomplete r' hr').1
  rw [hname.textField_eq, hname'.textField_eq] at heq
  exact hne name hname (heq ▸ hname')

/-- **Records that are complete and have distinct names are all known**, by their names. -/
theorem known_eq : known records = records.map fun r => (Step.textField r "name", r) := by
  -- from the right: each record comes to those before it, among which its name is new
  induction records using List.reverseRecOn with
  | nil => rfl
  | append_singleton records r ih =>
    rw [List.forall_mem_append, List.forall_mem_singleton] at hcomplete
    obtain ⟨hrecords, ⟨name, hname⟩, tool, htool⟩ := hcomplete
    obtain ⟨hapart, -, hnew⟩ := List.pairwise_append.mp hapart
    have hknown := ih hrecords hapart
    have hnot : name ∉ (known records).keys := by
      rw [hknown]
      intro hin
      obtain ⟨e, he, rfl⟩ := List.mem_map.mp hin
      obtain ⟨r', hr', rfl⟩ := List.mem_map.mp he
      obtain ⟨name', hname'⟩ := (hrecords r' hr').1
      have heq : Step.textField r' "name" = name' := hname'.textField_eq
      exact hnew r' hr' r List.mem_cons_self name' hname' (heq ▸ hname)
    rw [known_concat, textOf?_eq_some_iff.mpr hname, textOf?_eq_some_iff.mpr htool]
    simp only [Table.contains_iff, hnot, if_false]
    rw [Table.put_of_not_mem hnot, hknown, List.map_append, List.map_singleton, hname.textField_eq]

theorem get?_known {name : String} :
    (known records).get? name = some r ↔ r ∈ records ∧ r.Says "name" name := by
  have hnodup : (known records).keys.Nodup := by
    rw [known_eq hcomplete hapart, Table.keys, List.map_map]
    exact nodup_names hcomplete hapart
  rw [Table.get?_eq_some_iff hnodup, known_eq hcomplete hapart, List.mem_map]
  constructor
  · rintro ⟨r', hr', heq⟩
    obtain ⟨rfl, rfl⟩ := Prod.mk.inj heq
    obtain ⟨name, hname⟩ := (hcomplete r' hr').1
    rw [hname.textField_eq]
    exact ⟨hr', hname⟩
  · rintro ⟨hr, hname⟩
    exact ⟨r, hr, by rw [hname.textField_eq]⟩

theorem mem_keys_known {name : String} :
    name ∈ (known records).keys ↔ ∃ r ∈ records, r.Says "name" name := by
  rw [← not_iff_not, ← Table.get?_eq_none_iff, Option.eq_none_iff_forall_ne_some]
  simp only [ne_eq, get?_known hcomplete hapart, not_exists]

theorem values_known : (known records).values = records := by
  rw [known_eq hcomplete hapart, Table.values, List.map_map]
  exact List.map_id records

/-- The graph that is searched for cycles is that of all records. -/
theorem graph_known {steps : List Step} (hsteps : List.Forall₂ Record.Describes records steps) :
    graph (known records) = Graph.ofSteps steps := by
  unfold graph
  rw [values_known hcomplete hapart, filterMap_ofRecord hsteps]

end Known

/-! ## Records -/

theorem inputNotes_eq_nil_iff : inputNotes r = [] ↔ r.HasMapping := by
  have hfield : inputNotes r = [] ↔
      ∀ v, Step.field? r "input" = some v → ∃ members, v = .object members := by
    unfold inputNotes
    split
    · rename_i hnone
      simp [hnone]
    · rename_i members hsome
      simp [hsome]
    · rename_i v hnotMapping hsome
      simp only [hsome, Option.some.injEq, forall_eq', List.cons_ne_nil, false_iff, not_exists]
      exact fun members heq => hnotMapping members (heq ▸ rfl)
  simp only [hfield, Step.field?_eq_some_iff, Record.HasMapping, or_iff_not_imp_left, and_imp,
    ne_eq]

theorem mem_inputMembers {parameter : String} {v : Json} :
    (parameter, v) ∈ inputMembers r ∧ v ≠ .null ↔ r.Gives parameter v := by
  unfold inputMembers Record.Gives
  split
  · rename_i members hget
    simp [hget]
  · rename_i hnotMapping
    constructor
    · rintro ⟨hin, -⟩
      exact absurd hin List.not_mem_nil
    · rintro ⟨members, hget, -⟩
      exact absurd hget (hnotMapping members)

theorem referenceNotes_eq_nil_iff {dependencies : NameSet} {x : Reference} :
    referenceNotes box table dependencies x = [] ↔ x.step ∈ dependencies ∧
      ∀ field, x.field = some field → gives box table x.step field = true := by
  unfold referenceNotes
  rw [List.append_eq_nil_iff]
  refine and_congr ?_ ?_
  · rw [← NameSet.contains_iff]
    cases dependencies.contains x.step <;> simp
  · cases x.field with
    | none => simp
    | some field => cases gives box table x.step field <;> simp

theorem parameterNotes_eq_nil_iff {dependencies : NameSet} {tool parameter : String}
    {spec : Tool.Spec} {v : Json} :
    parameterNotes box table dependencies tool spec parameter v = [] ↔
      (v ≠ .null → parameter ∈ spec.inputs.keys ∧
        ∀ x, v.RefersTo x → referenceNotes box table dependencies x = []) := by
  unfold parameterNotes
  rw [← Json.isNull_eq_false_iff]
  cases v.isNull with
  | true => simp
  | false =>
    simp only [Bool.false_eq_true, if_false, List.append_eq_nil_iff, List.flatMap_eq_nil_iff,
      ← Table.contains_iff, Reference.mem_inValue, true_implies]
    cases spec.inputs.contains parameter <;> simp

theorem toolNotes_eq_nil_iff (hcomplete : r.Complete) {dependencies : NameSet} :
    toolNotes box table dependencies r = [] ↔ ∃ spec, r.Calls box spec ∧
      ∀ parameter v, r.Gives parameter v → parameter ∈ spec.inputs.keys ∧
        ∀ x, v.RefersTo x → referenceNotes box table dependencies x = [] := by
  obtain ⟨-, tool, htool⟩ := hcomplete
  unfold toolNotes
  rw [textOf?_eq_some_iff.mpr htool]
  cases hspec : box.spec? tool with
  | none =>
    simp only [hspec, List.cons_ne_nil, false_iff]
    rintro ⟨spec, ⟨tool', htool', hspec'⟩, -⟩
    rw [htool'.unique htool, hspec] at hspec'
    cases hspec'
  | some spec =>
    have hcalls : r.Calls box spec := ⟨tool, htool, hspec⟩
    simp only [hspec, List.flatMap_eq_nil_iff, parameterNotes_eq_nil_iff, ← mem_inputMembers]
    constructor
    · intro h
      exact ⟨spec, hcalls, fun parameter v hv => h (parameter, v) hv.1 hv.2⟩
    · rintro ⟨spec', hcalls', h⟩ ⟨parameter, v⟩ hin hv
      obtain rfl := hcalls.unique hcalls'
      exact h parameter v ⟨hin, hv⟩

/-- **Nothing is wrong with a record by itself**: what it depends on is known, and it gives values
to parameters of its tool in which it uses known fields of what it depends on. -/
theorem recordNotes_eq_nil_iff (hcomplete : r.Complete) : recordNotes box table r = [] ↔
    (∀ name, r.Lists name → name ∈ table.keys) ∧ r.HasMapping ∧ ∃ spec, r.Calls box spec ∧
      ∀ parameter v, r.Gives parameter v → parameter ∈ spec.inputs.keys ∧
        ∀ x, v.RefersTo x → r.Lists x.step ∧
          ∀ field, x.field = some field → gives box table x.step field = true := by
  unfold recordNotes
  rw [List.append_eq_nil_iff, List.append_eq_nil_iff, List.map_eq_nil_iff, List.filter_eq_nil_iff,
    inputNotes_eq_nil_iff, toolNotes_eq_nil_iff hcomplete, and_assoc]
  refine and_congr (forall_congr' fun name => imp_congr mem_dependencyNames ?_) ?_
  · simp
  · simp only [referenceNotes_eq_nil_iff, mem_dependencyNames]

theorem gives_eq_true_iff {step field : String} {spec : Tool.Spec}
    (hget : table.get? step = some r) (hcalls : r.Calls box spec) :
    gives box table step field = true ↔ field ∈ spec.outputs.keys := by
  obtain ⟨tool, htool, hspec⟩ := hcalls
  unfold gives
  rw [hget, Option.bind_some, textOf?_eq_some_iff.mpr htool, Option.bind_some, hspec]
  exact Table.contains_iff

/-! ## All together -/

theorem cycleNotes_eq_nil_iff : cycleNotes table = [] ↔ (graph table).cycleMembers = [] :=
  List.map_eq_nil_iff

theorem notes_eq_nil_iff : notes box records = [] ↔ allNameNotes [] records = [] ∧
    (∀ r ∈ records, recordNotes box (known records) r = []) ∧ cycleNotes (known records) = [] := by
  simp only [notes, List.append_eq_nil_iff, List.flatMap_eq_nil_iff, List.map_eq_nil_iff, and_assoc]

end Check

/-! ## The rules -/

section Steps
variable (hcomplete : ∀ r ∈ records, r.Complete) (hapart : records.Pairwise Record.Apart)
  {steps : List Step} (hsteps : List.Forall₂ Record.Describes records steps)
include hcomplete hapart hsteps

theorem nodup_map_name : (steps.map Step.name).Nodup :=
  map_name hsteps ▸ Check.nodup_names hcomplete hapart

theorem dependsOn_eq : (Graph.ofSteps steps).DependsOn = RecordsDepend records :=
  Graph.dependsOn_ofSteps hsteps (fun r hr => (hcomplete r hr).1)
    (nodup_map_name hcomplete hapart hsteps)

/-- The steps have the names of the records. -/
theorem mem_names_ofSteps {name : String} :
    name ∈ (Graph.ofSteps steps).names ↔ ∃ r ∈ records, r.Says "name" name := by
  unfold Graph.names
  rw [Graph.steps_ofSteps (nodup_map_name hcomplete hapart hsteps), map_name hsteps, List.mem_map]
  constructor
  · rintro ⟨r, hr, rfl⟩
    obtain ⟨name, hname⟩ := (hcomplete r hr).1
    exact ⟨r, hr, hname.textField_eq.symm ▸ hname⟩
  · rintro ⟨r, hr, hname⟩
    exact ⟨r, hr, hname.textField_eq⟩

/-- Records that depend on records only describe steps that depend on steps only. -/
theorem mem_names_of_known
    (hknown : ∀ r ∈ records, ∀ name, r.Lists name → ∃ r' ∈ records, r'.Says "name" name)
    (name other : String) (hdep : (Graph.ofSteps steps).DependsOn name other) :
    other ∈ (Graph.ofSteps steps).names := by
  rw [dependsOn_eq hcomplete hapart hsteps] at hdep
  obtain ⟨r, hr, -, hlists⟩ := hdep
  exact (mem_names_ofSteps hcomplete hapart hsteps).mpr (hknown r hr other hlists)

theorem acyclic_iff : (Graph.ofSteps steps).Acyclic ↔
    ∀ name, ¬ Relation.TransGen (RecordsDepend records) name name := by
  unfold Graph.Acyclic
  rw [dependsOn_eq hcomplete hapart hsteps]

end Steps

/-- **The steps of records that keep the rules have an order.** -/
theorem WellFormed.orderError?_eq_none (h : WellFormed box records) {steps : List Step}
    (hsteps : List.Forall₂ Record.Describes records steps) :
    (Graph.ofSteps steps).orderError? = none := by
  have hacyclic := (acyclic_iff h.complete h.apart hsteps).mpr h.acyclic
  exact Graph.orderError?_eq_none (mem_names_of_known h.complete h.apart hsteps h.known)
    hacyclic.cycleMembers_eq_nil

/-- **Records of which nothing is noted keep the rules.** -/
theorem wellFormed_of_notes_eq_nil (h : Check.notes box records = []) : WellFormed box records := by
  obtain ⟨hnames, hnotes, hcycles⟩ := Check.notes_eq_nil_iff.mp h
  obtain ⟨hcomplete, hapart, -⟩ := (Check.allNameNotes_eq_nil_iff []).mp hnames
  have hrecords := fun r hr => (Check.recordNotes_eq_nil_iff (hcomplete r hr)).mp (hnotes r hr)
  have hknown : ∀ r ∈ records, ∀ name, r.Lists name → ∃ r' ∈ records, r'.Says "name" name :=
    fun r hr name hlists =>
      (Check.mem_keys_known hcomplete hapart).mp ((hrecords r hr).1 name hlists)
  have hmapping : ∀ r ∈ records, r.HasMapping := fun r hr => (hrecords r hr).2.1
  have hcalls : ∀ r ∈ records, ∃ spec, r.Calls box spec := fun r hr =>
    (hrecords r hr).2.2.imp fun _ => And.left
  refine ⟨hcomplete, hapart, hcalls, hmapping, ?_, ?_, ?_, hknown, ?_⟩
  · intro r hr parameter v hgives
    obtain ⟨spec, hspec, hvalues⟩ := (hrecords r hr).2.2
    exact ⟨spec, hspec, (hvalues parameter v hgives).1⟩
  · rintro r hr x ⟨parameter, v, hgives, hrefers⟩
    obtain ⟨spec, -, hvalues⟩ := (hrecords r hr).2.2
    exact ((hvalues parameter v hgives).2 x hrefers).1
  · rintro r hr x field ⟨parameter, v, hgives, hrefers⟩ hfield
    obtain ⟨spec, -, hvalues⟩ := (hrecords r hr).2.2
    obtain ⟨hlists, hgiven⟩ := (hvalues parameter v hgives).2 x hrefers
    -- the step is known and so is its tool, so the field was looked up
    obtain ⟨r', hr', hname⟩ := hknown r hr x.step hlists
    obtain ⟨spec', hspec'⟩ := hcalls r' hr'
    have hget := (Check.get?_known hcomplete hapart).mpr ⟨hr', hname⟩
    exact ⟨r', hr', hname, spec', hspec',
      (Check.gives_eq_true_iff hget hspec').mp (hgiven field hfield)⟩
  · -- no input is malformed and no name is repeated, so no record is missing from the graph
    obtain ⟨steps, hsteps⟩ := exists_steps hmapping
    rw [Check.cycleNotes_eq_nil_iff, Check.graph_known hcomplete hapart hsteps] at hcycles
    have horder := Graph.orderError?_eq_none
      (mem_names_of_known hcomplete hapart hsteps hknown) hcycles
    exact (acyclic_iff hcomplete hapart hsteps).mp (Graph.acyclic_of_orderError?_eq_none horder)

/-- **Nothing is noted of records that keep the rules.** -/
theorem WellFormed.notes_eq_nil (h : WellFormed box records) : Check.notes box records = [] := by
  refine Check.notes_eq_nil_iff.mpr ⟨?_, fun r hr => ?_, ?_⟩
  · exact (Check.allNameNotes_eq_nil_iff []).mpr
      ⟨h.complete, h.apart, fun _ _ _ _ => List.not_mem_nil⟩
  · obtain ⟨spec, hcalls⟩ := h.registered r hr
    refine (Check.recordNotes_eq_nil_iff (h.complete r hr)).mpr
      ⟨fun name hlists => ?_, h.mapping r hr, spec, hcalls, fun parameter v hgives => ?_⟩
    · exact (Check.mem_keys_known h.complete h.apart).mpr (h.known r hr name hlists)
    · obtain ⟨spec', hcalls', hdeclared⟩ := h.declared r hr parameter v hgives
      obtain rfl := hcalls.unique hcalls'
      refine ⟨hdeclared, fun x hrefers => ?_⟩
      have huses : r.Uses x := ⟨parameter, v, hgives, hrefers⟩
      refine ⟨h.listed r hr x huses, fun field hfield => ?_⟩
      obtain ⟨r', hr', hname, spec', hspec', houtput⟩ := h.produced r hr x field huses hfield
      have hget := (Check.get?_known h.complete h.apart).mpr ⟨hr', hname⟩
      exact (Check.gives_eq_true_iff hget hspec').mpr houtput
  · obtain ⟨steps, hsteps⟩ := exists_steps h.mapping
    rw [Check.cycleNotes_eq_nil_iff, Check.graph_known h.complete h.apart hsteps]
    exact Graph.cycleMembers_eq_nil (h.orderError?_eq_none hsteps)

/-! ## Findings -/

namespace Findings

theorem ofNotes_concat (notes : List Check.Note) (note : Check.Note) :
    ofNotes (notes ++ [note]) = (ofNotes notes).add note := by
  unfold ofNotes
  rw [List.foldl_append]
  rfl

theorem ofNotes_eq_nil_iff {notes : List Check.Note} : ofNotes notes = [] ↔ notes = [] := by
  induction notes using List.reverseRecOn with
  | nil => exact ⟨fun _ => rfl, fun _ => rfl⟩
  | append_singleton notes note _ =>
    rw [ofNotes_concat]
    exact iff_of_false (Table.put_ne_nil _ _ _)
      (List.append_ne_nil_of_right_ne_nil _ (List.cons_ne_nil _ _))

/-- Every finding shows in the report. -/
theorem report_eq_empty_iff {findings : Findings} : findings.report = "" ↔ findings = [] := by
  unfold report
  cases findings with
  | nil => exact ⟨fun _ => rfl, fun _ => rfl⟩
  | cons entry rest =>
    simp [paragraphs, paragraph, String.join_cons, String.append_eq_empty_iff]

/-- **A check finds nothing exactly if the records keep the rules.** -/
theorem ofRecords_eq_nil_iff (box : Toolbox) (records : List Record) :
    ofRecords box records = [] ↔ WellFormed box records := by
  unfold ofRecords
  rw [ofNotes_eq_nil_iff]
  exact ⟨wellFormed_of_notes_eq_nil, WellFormed.notes_eq_nil⟩

end Findings

end Runbook.Plan
