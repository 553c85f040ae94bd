import Mathlib.Data.List.Induction
import Runbook.Proofs.Plan.Collect
import Runbook.Tool.Registry

/-!
# The tables of a registry

A registry keeps descriptions and tools apart, and what is asked of the one table is answered from
the other: a step is known to have a tool by its description.  The two have the same names, and
each holds what was first registered under a name, whatever is registered and refused
(`Registry.HoldsFirst`, kept by every registration).

Registering is a row of writes, each made to the registry that the ones before it left
(`Registry.registerInPlace`); a tool is refused before the first of them.
-/

namespace Runbook

namespace Tool.Registry

/-! ## Registering in place -/

/-- **Registers a tool in place**, one write after the other.  What was written before a failure
stays written. -/
def registerInPlace (spec : Spec) (tool : Tool) : EStateM Error Registry Unit := do
  let r ← get
  if r.specs.contains spec.name then throw (.duplicate spec.name)
  modify fun r => { r with tools := r.tools.put spec.name tool }
  modify fun r => { r with specs := r.specs.put spec.name spec }

/-- The registry that registering a tool in place leaves, whether the tool is refused or not. -/
def attempt (r : Registry) (entry : Spec × Tool) : Registry :=
  match registerInPlace entry.1 entry.2 r with
  | .ok _ next => next
  | .error _ left => left

/-- **The registry after a row of registrations**, of which any may be refused. -/
def attempts (entries : List (Spec × Tool)) : Registry :=
  entries.foldl attempt empty

variable {r : Registry} {spec : Spec} {tool : Tool} {entries : List (Spec × Tool)}

/-- **Registering in place** leads where registering does, and a refusal writes nothing. -/
theorem registerInPlace_eq (r : Registry) (spec : Spec) (tool : Tool) :
    registerInPlace spec tool r =
      match r.register spec tool with
      | .ok next => .ok () next
      | .error e => .error e r := by
  show (if r.specs.contains spec.name = true then _ else _ : EStateM Error Registry Unit) r = _
  unfold register
  by_cases hknown : r.specs.contains spec.name = true
  · rw [if_pos hknown, if_pos hknown]
    rfl
  · rw [if_neg hknown, if_neg hknown]
    rfl

theorem registerInPlace_of_mem (h : spec.name ∈ r.specs.keys) :
    registerInPlace spec tool r = .error (.duplicate spec.name) r := by
  rw [registerInPlace_eq, register, if_pos (Table.contains_iff.mpr h)]

theorem registerInPlace_of_not_mem (h : spec.name ∉ r.specs.keys) :
    registerInPlace spec tool r =
      .ok () ⟨r.specs.put spec.name spec, r.tools.put spec.name tool⟩ := by
  rw [registerInPlace_eq, register, if_neg (fun hknown => h (Table.contains_iff.mp hknown))]

theorem attempt_of_mem {entry : Spec × Tool} (h : entry.1.name ∈ r.specs.keys) :
    r.attempt entry = r := by
  unfold attempt
  rw [registerInPlace_of_mem h]

theorem attempt_of_not_mem {entry : Spec × Tool} (h : entry.1.name ∉ r.specs.keys) :
    r.attempt entry =
      ⟨r.specs.put entry.1.name entry.1, r.tools.put entry.1.name entry.2⟩ := by
  unfold attempt
  rw [registerInPlace_of_not_mem h]

/-! ## What was registered first -/

/-- What was first registered under a name. -/
def first? (entries : List (Spec × Tool)) (name : String) : Option (Spec × Tool) :=
  entries.find? fun entry => entry.1.name == name

theorem first?_concat (entries : List (Spec × Tool)) (entry : Spec × Tool) (name : String) :
    first? (entries ++ [entry]) name =
      (first? entries name).or (if entry.1.name = name then some entry else none) := by
  unfold first?
  rw [List.find?_append, List.find?_singleton]
  simp only [beq_iff_eq]

/-- **The registry holds what was first registered under each name**, in both of its tables. -/
structure HoldsFirst (r : Registry) (entries : List (Spec × Tool)) : Prop where
  /-- The tables have the same names … -/
  keys_eq : r.tools.keys = r.specs.keys
  /-- … each of them once … -/
  nodup : r.specs.keys.Nodup
  /-- … in the order in which they were first registered. -/
  names_eq : r.names = (entries.map fun entry => entry.1.name).eraseDups
  /-- Under a name is the description that came with it first … -/
  spec_eq : ∀ name, r.specs.get? name = (first? entries name).map Prod.fst
  /-- … and the tool that came with that. -/
  tool_eq : ∀ name, r.tools.get? name = (first? entries name).map Prod.snd

namespace HoldsFirst

theorem empty : Registry.empty.HoldsFirst [] :=
  ⟨rfl, List.nodup_nil, rfl, fun _ => rfl, fun _ => rfl⟩

theorem mem_keys_iff (h : r.HoldsFirst entries) {name : String} :
    name ∈ r.specs.keys ↔ (first? entries name).isSome = true := by
  rw [← not_iff_not, ← Table.get?_eq_none_iff, h.spec_eq, Option.map_eq_none_iff,
    Bool.not_eq_true, Option.isSome_eq_false_iff, Option.isNone_iff_eq_none]

/-- A name that was registered before keeps its first entry. -/
theorem first?_of_mem (h : r.HoldsFirst entries) {entry : Spec × Tool}
    (hin : entry.1.name ∈ r.specs.keys) (name : String) :
    first? (entries ++ [entry]) name = first? entries name := by
  rw [first?_concat]
  by_cases hname : entry.1.name = name
  · obtain ⟨earlier, hfirst⟩ := Option.isSome_iff_exists.mp (h.mem_keys_iff.mp (hname ▸ hin))
    rw [hfirst]
    rfl
  · rw [if_neg hname, Option.or_none]

/-- A name that is new gets its entry, and no other name does. -/
theorem first?_of_not_mem (h : r.HoldsFirst entries) {entry : Spec × Tool}
    (hnew : entry.1.name ∉ r.specs.keys) (name : String) :
    first? (entries ++ [entry]) name =
      if name = entry.1.name then some entry else first? entries name := by
  rw [first?_concat]
  by_cases hname : entry.1.name = name
  · have hnone : first? entries name = none := by
      rw [← Option.isNone_iff_eq_none, ← Option.isSome_eq_false_iff, ← Bool.not_eq_true,
        ← h.mem_keys_iff]
      exact hname ▸ hnew
    rw [hnone, if_pos hname, if_pos hname.symm]
    rfl
  · rw [if_neg hname, if_neg (Ne.symm hname), Option.or_none]

/-- **Registering keeps what was registered first**, whether the tool is refused or not. -/
theorem attempt (h : r.HoldsFirst entries) (entry : Spec × Tool) :
    (r.attempt entry).HoldsFirst (entries ++ [entry]) := by
  have hnames : r.specs.keys = (entries.map fun entry => entry.1.name).eraseDups := h.names_eq
  by_cases hin : entry.1.name ∈ r.specs.keys
  · rw [attempt_of_mem hin]
    refine ⟨h.keys_eq, h.nodup, ?_, fun name => ?_, fun name => ?_⟩
    · rw [List.map_append, List.map_singleton, Plan.eraseDups_concat, if_pos, ← hnames]
      · rfl
      · rwa [hnames, List.mem_eraseDups] at hin
    · rw [h.first?_of_mem hin, h.spec_eq]
    · rw [h.first?_of_mem hin, h.tool_eq]
  · rw [attempt_of_not_mem hin]
    have hin' : entry.1.name ∉ r.tools.keys := h.keys_eq ▸ hin
    constructor
    · show (r.tools.put _ _).keys = (r.specs.put _ _).keys
      rw [Table.keys_put_of_not_mem hin, Table.keys_put_of_not_mem hin', h.keys_eq]
    · exact Table.nodup_keys_put h.nodup _ _
    · show (r.specs.put _ _).keys = _
      rw [Table.keys_put_of_not_mem hin, List.map_append, List.map_singleton,
        Plan.eraseDups_concat, if_neg, ← hnames]
      rwa [hnames, List.mem_eraseDups] at hin
    · intro name
      show (r.specs.put _ _).get? name = _
      rw [Table.get?_put, h.first?_of_not_mem hin, h.spec_eq]
      split <;> rfl
    · intro name
      show (r.tools.put _ _).get? name = _
      rw [Table.get?_put, h.first?_of_not_mem hin, h.tool_eq]
      split <;> rfl

/-- **A tool that is offered answers as it was first registered.** -/
theorem exists_call_eq (h : r.HoldsFirst entries) {name : String}
    (hoffers : r.toolbox.offers name = true) :
    ∃ entry, first? entries name = some entry ∧ r.call name = entry.2 := by
  obtain ⟨spec, hspec⟩ := Option.isSome_iff_exists.mp hoffers
  obtain ⟨entry, hentry, -⟩ := Option.map_eq_some_iff.mp ((h.spec_eq name).symm.trans hspec)
  refine ⟨entry, hentry, ?_⟩
  funext arguments model
  unfold call
  rw [h.tool_eq, hentry]
  rfl

end HoldsFirst

/-- **Every row of registrations leaves what was first registered** under each name. -/
theorem holdsFirst_attempts (entries : List (Spec × Tool)) :
    (attempts entries).HoldsFirst entries := by
  induction entries using List.reverseRecOn with
  | nil => exact .empty
  | append_singleton entries entry ih =>
    unfold attempts at ih ⊢
    rw [List.foldl_append]
    exact ih.attempt entry

/-- Tools of new names are all registered. -/
theorem registerAll_eq_ok (hnodup : (entries.map fun entry => entry.1.name).Nodup)
    (hnew : ∀ entry ∈ entries, entry.1.name ∉ r.specs.keys) :
    r.registerAll entries = .ok (entries.foldl attempt r) := by
  induction entries generalizing r with
  | nil => rfl
  | cons entry rest ih =>
    obtain ⟨hentry, hrest⟩ := List.forall_mem_cons.mp hnew
    obtain ⟨hfirst, hnodup⟩ := List.nodup_cons.mp hnodup
    have hregister : r.register entry.1 entry.2 = .ok (r.attempt entry) := by
      rw [attempt_of_not_mem hentry, register,
        if_neg fun hknown => hentry (Table.contains_iff.mp hknown)]
    have hstill : ∀ other ∈ rest, other.1.name ∉ (r.attempt entry).specs.keys := by
      intro other hother hin
      rw [attempt_of_not_mem hentry] at hin
      change other.1.name ∈ (r.specs.put _ _).keys at hin
      rw [Table.keys_put_of_not_mem hentry, List.mem_append, List.mem_singleton] at hin
      rcases hin with hin | heq
      · exact hrest other hother hin
      · have hname : other.1.name ∈ rest.map fun entry => entry.1.name :=
          List.mem_map_of_mem hother
        rw [heq] at hname
        exact hfirst hname
    unfold registerAll
    rw [hregister]
    exact ih hnodup hstill

end Tool.Registry

end Runbook
