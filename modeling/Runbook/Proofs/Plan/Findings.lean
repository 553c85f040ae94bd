import Mathlib.Data.List.Induction
import Runbook.Proofs.Plan.Check
import Runbook.Proofs.Plan.Collect

/-!
# Findings by name

Under each name stand the findings that were noted for it, in the order in which they were noted
(`Findings.under_ofNotes`): no finding keeps another from being noted.

Cycles are looked for in a graph of their own, made of the records that describe steps.  A record
whose input is not a mapping describes none, so it is on no cycle that is found, and a cycle through
it is not found at all (`cycle_hidden_by_input`).  Nothing else hides a cycle
(`Findings.cycles_are_found`).
-/

namespace Runbook.Plan
variable {box : Toolbox} {records : List Record} {r : Record}

namespace Findings

/-- The findings under a name. -/
def under (t : Findings) (name : String) : List Finding :=
  (t.get? name).getD []

theorem under_add (t : Findings) (note : Check.Note) (name : String) :
    (t.add note).under name = if note.1 = name then t.under name ++ [note.2] else t.under name := by
  unfold under add
  rw [Table.get?_put]
  by_cases h : note.1 = name
  · rw [if_pos h, if_pos h.symm, h]
    rfl
  · rw [if_neg h, if_neg fun heq => h heq.symm]

/-- **Under a name stand the findings that were noted for it.** -/
theorem under_ofNotes (notes : List Check.Note) (name : String) :
    (ofNotes notes).under name = (notes.filter fun note => note.1 == name).map Prod.snd := by
  induction notes using List.reverseRecOn with
  | nil => rfl
  | append_singleton notes note ih =>
    rw [ofNotes_concat, under_add, ih, List.filter_append, List.map_append]
    by_cases h : note.1 = name <;> simp [h]

theorem mem_under {notes : List Check.Note} {name : String} {f : Finding} :
    f ∈ (ofNotes notes).under name ↔ (name, f) ∈ notes := by
  rw [under_ofNotes]
  simp

end Findings

/-! ## Findings about cycles -/

namespace Check
variable {table : Table Record} {note : Note} {members : List String}

/-- Nothing about a name is a cycle … -/
theorem nameNotes_ne_cycle (h : note ∈ nameNotes table r) : note.2 ≠ .cycle members := by
  rcases List.mem_append.mp h with hmissing | hrepeated
  · split at hmissing
    · rw [List.mem_singleton.mp hmissing]
      rintro ⟨⟩
    · cases hmissing
  · split at hrepeated
    · split at hrepeated
      · rw [List.mem_singleton.mp hrepeated]
        rintro ⟨⟩
      · cases hrepeated
    · cases hrepeated

theorem allNameNotes_ne_cycle {before : List Record} (h : note ∈ allNameNotes before records) :
    note.2 ≠ .cycle members := by
  induction records generalizing before with
  | nil => cases h
  | cons r rest ih =>
    rcases List.mem_append.mp h with hfirst | hrest
    · exact nameNotes_ne_cycle hfirst
    · exact ih hrest

theorem referenceNotes_ne_cycle {dependencies : NameSet} {x : Reference} {f : Finding}
    (h : f ∈ referenceNotes box table dependencies x) : f ≠ .cycle members := by
  rcases List.mem_append.mp h with hundeclared | hunknown
  · split at hundeclared
    · cases hundeclared
    · rw [List.mem_singleton.mp hundeclared]
      rintro ⟨⟩
  · split at hunknown
    · split at hunknown
      · cases hunknown
      · rw [List.mem_singleton.mp hunknown]
        rintro ⟨⟩
    · cases hunknown

theorem parameterNotes_ne_cycle {dependencies : NameSet} {tool parameter : String}
    {spec : Tool.Spec} {v : Json} {f : Finding}
    (h : f ∈ parameterNotes box table dependencies tool spec parameter v) : f ≠ .cycle members := by
  unfold parameterNotes at h
  split at h
  · cases h
  · rcases List.mem_append.mp h with hextra | hreference
    · split at hextra
      · cases hextra
      · rw [List.mem_singleton.mp hextra]
        rintro ⟨⟩
    · obtain ⟨x, -, hx⟩ := List.mem_flatMap.mp hreference
      exact referenceNotes_ne_cycle hx

theorem toolNotes_ne_cycle {dependencies : NameSet} {f : Finding}
    (h : f ∈ toolNotes box table dependencies r) : f ≠ .cycle members := by
  unfold toolNotes at h
  split at h
  · cases h
  · split at h
    · rw [List.mem_singleton.mp h]
      rintro ⟨⟩
    · obtain ⟨e, -, he⟩ := List.mem_flatMap.mp h
      exact parameterNotes_ne_cycle he

/-- … nor is anything about a record by itself. -/
theorem recordNotes_ne_cycle {f : Finding} (h : f ∈ recordNotes box table r) :
    f ≠ .cycle members := by
  rcases List.mem_append.mp h with hunknown | hrest
  · rcases List.mem_append.mp hunknown with hunknown | hinput
    · obtain ⟨d, -, rfl⟩ := List.mem_map.mp hunknown
      rintro ⟨⟩
    · unfold inputNotes at hinput
      split at hinput
      · cases hinput
      · cases hinput
      · rw [List.mem_singleton.mp hinput]
        rintro ⟨⟩
  · exact toolNotes_ne_cycle hrest

/-- **The findings about cycles** are those about the steps that are never placed. -/
theorem mem_notes_cycle_iff {name : String} :
    (name, Finding.cycle members) ∈ notes box records ↔
      members = (graph (known records)).cycleMembers ∧ name ∈ members := by
  unfold notes
  rw [List.mem_append, List.mem_append, cycleNotes]
  constructor
  · rintro ((hname | hrecord) | hcycle)
    · exact absurd rfl (allNameNotes_ne_cycle hname)
    · obtain ⟨r, -, hnote⟩ := List.mem_flatMap.mp hrecord
      obtain ⟨f, hf, heq⟩ := List.mem_map.mp hnote
      obtain rfl : f = .cycle members := congrArg Prod.snd heq
      exact absurd rfl (recordNotes_ne_cycle hf)
    · obtain ⟨member, hmember, heq⟩ := List.mem_map.mp hcycle
      cases heq
      exact ⟨rfl, hmember⟩
  · rintro ⟨rfl, hname⟩
    exact Or.inr (List.mem_map_of_mem hname)

end Check

/-! ## Records that describe steps -/

instance : DecidablePred Record.HasMapping := fun r =>
  decidable_of_iff ((Check.inputNotes r).isEmpty = true)
    (List.isEmpty_iff.trans Check.inputNotes_eq_nil_iff)

/-- **The records that describe steps**: those whose input is a mapping, if they have one. -/
def describing (records : List Record) : List Record :=
  records.filter fun r => decide r.HasMapping

/-- **Records are linked**: one depends on the name of another, or on its own. -/
def Linked (records : List Record) (name other : String) : Prop :=
  RecordsDepend records name other ∧ ∃ r ∈ records, r.Says "name" other

theorem hasMapping_of_mem_describing (r : Record) (hr : r ∈ describing records) : r.HasMapping :=
  of_decide_eq_true (List.mem_filter.mp hr).2

theorem describing_eq_self (h : ∀ r ∈ records, r.HasMapping) : describing records = records :=
  List.filter_eq_self.mpr fun r hr => decide_eq_true (h r hr)

/-- Only records that describe steps are read into the graph. -/
theorem filterMap_describing :
    (describing records).filterMap (fun r => (Step.ofRecord 0 r).toOption) =
      records.filterMap fun r => (Step.ofRecord 0 r).toOption := by
  unfold describing
  rw [List.filterMap_filter]
  refine List.filterMap_congr fun r _ => ?_
  by_cases hr : r.HasMapping
  · rw [if_pos (decide_eq_true hr)]
  · obtain ⟨v, -, hrefused⟩ := Graph.ofRecord_malformed hr 0
    rw [if_neg (fun h => hr (of_decide_eq_true h)), hrefused]
    rfl

section Cycles
variable (hcomplete : ∀ r ∈ records, r.Complete) (hapart : records.Pairwise Record.Apart)
include hcomplete hapart

/-- **The graph that is searched for cycles has the links of the records that describe steps.** -/
theorem edge_graph_known :
    (Check.graph (Check.known records)).Edge = Linked (describing records) := by
  have hsublist : (describing records).Sublist records := List.filter_sublist
  have hcomplete' : ∀ r ∈ describing records, r.Complete := fun r hr =>
    hcomplete r (hsublist.subset hr)
  have hapart' : (describing records).Pairwise Record.Apart := hapart.sublist hsublist
  have hmapping : ∀ r ∈ describing records, r.HasMapping := hasMapping_of_mem_describing
  obtain ⟨steps, hsteps⟩ := exists_steps hmapping
  have hgraph : Check.graph (Check.known records) = Graph.ofSteps steps := by
    unfold Check.graph
    rw [Check.values_known hcomplete hapart, ← filterMap_describing, filterMap_ofRecord hsteps]
  funext name other
  unfold Graph.Edge Linked
  rw [hgraph, dependsOn_eq hcomplete' hapart' hsteps,
    propext (mem_names_ofSteps hcomplete' hapart' hsteps)]

/-- **Cycles are found whatever else is wrong.**  A step has a finding about a cycle exactly if
links between steps lead from it to a step that they lead back to.  So every step on a cycle has
one, if no input is malformed: no other fault of the records keeps it from being found. -/
theorem Findings.cycles_are_found (box : Toolbox) :
    (∀ name, (∃ members, Finding.cycle members ∈ (ofRecords box records).under name) ↔
      ∃ other, Relation.ReflTransGen (Linked (describing records)) name other ∧
        Relation.TransGen (Linked (describing records)) other other) ∧
    ((∀ r ∈ records, r.HasMapping) → ∀ name, Relation.TransGen (Linked records) name name →
      ∃ members, Finding.cycle members ∈ (ofRecords box records).under name) := by
  have hfound : ∀ name, (∃ members, Finding.cycle members ∈ (ofRecords box records).under name) ↔
      ∃ other, Relation.ReflTransGen (Linked (describing records)) name other ∧
        Relation.TransGen (Linked (describing records)) other other := by
    intro name
    unfold ofRecords
    simp only [mem_under, Check.mem_notes_cycle_iff, exists_eq_left]
    rw [Graph.mem_cycleMembers_iff, ← edge_graph_known hcomplete hapart]
    rfl
  refine ⟨hfound, fun hmapping name hcycle => (hfound name).mpr ⟨name, .refl, ?_⟩⟩
  rwa [describing_eq_self hmapping]

end Cycles

/-- A toolbox with one tool, which takes no parameters. -/
def bare : Toolbox where
  spec? name := if name = "t" then some ⟨"t", "", [], []⟩ else none
  call _ _ _ := .ok .null

/-- Two steps that depend on each other, the first with this input. -/
def crossed (input : Json) : List Record :=
  [[("name", .text "a"), ("toolname", .text "t"), ("input", input), ("dependency", .text "b")],
    [("name", .text "b"), ("toolname", .text "t"), ("dependency", .text "a")]]

section Crossed
variable (input : Json)

theorem complete_crossed : (∀ r ∈ crossed input, r.Complete) ∧
    (crossed input).Pairwise Record.Apart := by
  have hnames : Check.allNameNotes [] (crossed input) = [] := rfl
  obtain ⟨hcomplete, hapart, -⟩ := (Check.allNameNotes_eq_nil_iff []).mp hnames
  exact ⟨hcomplete, hapart⟩

/-- Each of the two steps is on a cycle. -/
theorem cycle_crossed : Relation.TransGen (Linked (crossed input)) "a" "a" ∧
    Relation.TransGen (Linked (crossed input)) "b" "b" := by
  have hname : ∀ {r : Record} {field text : String}, Check.textOf? r field = some text →
      r.Says field text := Check.textOf?_eq_some_iff.mp
  have hlists : ∀ {r : Record} {text : String}, r.get? "dependency" = some (.text text) →
      Text.isBlankText text = false → r.Lists text := fun hget hshows =>
    ⟨_, .alone hget (by rintro _ ⟨⟩), Json.says_iff.mpr ⟨rfl, rfl, hshows⟩⟩
  have ha : Linked (crossed input) "a" "b" :=
    ⟨⟨_, List.mem_cons_self, hname rfl, hlists rfl rfl⟩,
      _, List.mem_cons_of_mem _ List.mem_cons_self, hname rfl⟩
  have hb : Linked (crossed input) "b" "a" :=
    ⟨⟨_, List.mem_cons_of_mem _ List.mem_cons_self, hname rfl, hlists rfl rfl⟩,
      _, List.mem_cons_self, hname rfl⟩
  exact ⟨.tail (.single ha) hb, .tail (.single hb) ha⟩

end Crossed

/-- The cycle is found next to a parameter that the tool does not have. -/
theorem Findings.cycles_are_found_of_crossed :
    let records := crossed (.object [("q", .text "1")])
    (∃ members, Finding.cycle members ∈ (ofRecords bare records).under "a") ∧
      (∃ members, Finding.cycle members ∈ (ofRecords bare records).under "b") ∧
      ((ofRecords bare records).under "a").map Finding.message =
        ["Additional parameters q were input during the calling tool t.",
          "The dependencies of this node form a cycle: a -> b."] := by
  intro records
  have hmapping : ∀ r ∈ records, r.HasMapping :=
    List.forall_mem_cons.mpr ⟨Check.inputNotes_eq_nil_iff.mp rfl,
      List.forall_mem_singleton.mpr (Check.inputNotes_eq_nil_iff.mp rfl)⟩
  obtain ⟨hcomplete, hapart⟩ := complete_crossed (.object [("q", .text "1")])
  obtain ⟨ha, hb⟩ := cycle_crossed (.object [("q", .text "1")])
  have hfound := (cycles_are_found hcomplete hapart bare).2 hmapping
  exact ⟨hfound "a" ha, hfound "b" hb, by decide +kernel⟩

/-- **A cycle through a step whose input is not a mapping is not found**: neither of two steps that
depend on each other has a finding about it. -/
theorem cycle_hidden_by_input :
    ((∀ r ∈ crossed (.text "5"), r.Complete) ∧ (crossed (.text "5")).Pairwise Record.Apart) ∧
    (Relation.TransGen (Linked (crossed (.text "5"))) "a" "a" ∧
      Relation.TransGen (Linked (crossed (.text "5"))) "b" "b") ∧
    ∀ name members,
      Finding.cycle members ∉ (Findings.ofRecords bare (crossed (.text "5"))).under name := by
  refine ⟨complete_crossed _, cycle_crossed _, fun name members hfound => ?_⟩
  obtain ⟨rfl, hname⟩ := Check.mem_notes_cycle_iff.mp (Findings.mem_under.mp hfound)
  have hnone : (Check.graph (Check.known (crossed (.text "5")))).cycleMembers = [] := by
    decide +kernel
  rw [hnone] at hname
  cases hname

end Runbook.Plan
