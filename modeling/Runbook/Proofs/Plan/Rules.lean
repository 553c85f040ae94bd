import Mathlib.Data.List.Basic
import Mathlib.Logic.Relation
import Runbook.Proofs.Reference
import Runbook.Tool.Toolbox

/-!
# The rules for records

What the records of a plan have to be for a toolbox (`WellFormed`), said of what stands in their
fields: nothing here searches the records in an order or stops at a first fault.  A field says what
its value says, and `null` and blank texts say nothing (`Json.Says`).
-/

namespace Runbook

namespace Json
variable {v : Json} {text other : String}

/-- **What a value says** where a name is expected: its text, if that is not blank; `null` says
nothing. -/
def Says (v : Json) (text : String) : Prop :=
  v ≠ .null ∧ v.display = text ∧ ∃ c ∈ text.toList, Text.isBlank c = false

/-- **A text occurs in a value**: it is the value, or occurs in an item or in the value of a
member. -/
inductive Occurs (s : String) : Json → Prop
  | text : Occurs s (.text s)
  | item {items : List Json} {v : Json} : v ∈ items → Occurs s v → Occurs s (.array items)
  | member {members : List (String × Json)} {name : String} {v : Json} :
    (name, v) ∈ members → Occurs s v → Occurs s (.object members)

/-- A text in the value refers to an output. -/
def RefersTo (v : Json) (x : Reference) : Prop :=
  ∃ s, v.Occurs s ∧ x ∈ Reference.inText s

theorem Says.unique (h : v.Says text) (h' : v.Says other) : text = other :=
  h.2.1.symm.trans h'.2.1

end Json

namespace Reference

mutual

/-- **The references of a value** are those in the texts that occur in it. -/
theorem mem_inValue (v : Json) {x : Reference} : x ∈ inValue v ↔ v.RefersTo x :=
  match v with
  | .null => ⟨fun h => absurd h List.not_mem_nil, fun ⟨_, h, _⟩ => nomatch h⟩
  | .boolean _ => ⟨fun h => absurd h List.not_mem_nil, fun ⟨_, h, _⟩ => nomatch h⟩
  | .number _ => ⟨fun h => absurd h List.not_mem_nil, fun ⟨_, h, _⟩ => nomatch h⟩
  | .text s => ⟨fun h => ⟨s, .text, h⟩, fun ⟨_, .text, h⟩ => h⟩
  | .array items => by
    rw [inValue, mem_inItems items]
    constructor
    · rintro ⟨v, hv, s, hs, hx⟩
      exact ⟨s, .item hv hs, hx⟩
    · rintro ⟨s, hs, hx⟩
      cases hs with
      | item hv hs => exact ⟨_, hv, s, hs, hx⟩
  | .object members => by
    rw [inValue, mem_inMembers members]
    constructor
    · rintro ⟨⟨name, v⟩, hv, s, hs, hx⟩
      exact ⟨s, .member hv hs, hx⟩
    · rintro ⟨s, hs, hx⟩
      cases hs with
      | member hv hs => exact ⟨_, hv, s, hs, hx⟩

theorem mem_inItems (items : List Json) {x : Reference} :
    x ∈ inItems items ↔ ∃ v ∈ items, v.RefersTo x :=
  match items with
  | [] => ⟨fun h => absurd h List.not_mem_nil, fun ⟨_, h, _⟩ => absurd h List.not_mem_nil⟩
  | v :: rest => by
    rw [inItems, List.mem_append, mem_inValue v, mem_inItems rest]
    exact (List.exists_mem_cons_iff (fun v => v.RefersTo x) v rest).symm

theorem mem_inMembers (members : List (String × Json)) {x : Reference} :
    x ∈ inMembers members ↔ ∃ e ∈ members, e.2.RefersTo x :=
  match members with
  | [] => ⟨fun h => absurd h List.not_mem_nil, fun ⟨_, h, _⟩ => absurd h List.not_mem_nil⟩
  | (name, v) :: rest => by
    rw [inMembers, List.mem_append, mem_inValue v, mem_inMembers rest]
    exact (List.exists_mem_cons_iff (fun e => e.2.RefersTo x) (name, v) rest).symm

end

end Reference

namespace Plan

namespace Record

/-- A field of a record says a text. -/
def Says (r : Record) (field text : String) : Prop :=
  ∃ v, r.get? field = some v ∧ v.Says text

/-- **The entries of a field**: the items of a list, or the value alone if it is none. -/
inductive Entry (r : Record) (field : String) : Json → Prop
  | item {items : List Json} {v : Json} : r.get? field = some (.array items) → v ∈ items →
    Entry r field v
  | alone {v : Json} : r.get? field = some v → (∀ items, v ≠ .array items) → Entry r field v

/-- The record has a name and a tool. -/
def Complete (r : Record) : Prop :=
  (∃ name, r.Says "name" name) ∧ ∃ tool, r.Says "toolname" tool

/-- Two records do not have the same name. -/
def Apart (r r' : Record) : Prop :=
  ∀ name, r.Says "name" name → ¬ r'.Says "name" name

/-- **A record depends on a name**: an entry of its dependencies says it. -/
def Lists (r : Record) (name : String) : Prop :=
  ∃ v, r.Entry "dependency" v ∧ v.Says name

/-- The record has no input, or `null`, or a mapping. -/
def HasMapping (r : Record) : Prop :=
  ∀ v, r.get? "input" = some v → v = .null ∨ ∃ members, v = .object members

/-- The record gives a value to a parameter of its tool; `null` is no value. -/
def Gives (r : Record) (parameter : String) (v : Json) : Prop :=
  ∃ members, r.get? "input" = some (.object members) ∧ (parameter, v) ∈ members ∧ v ≠ .null

/-- **A record uses an output**: a text in a value that it gives refers to it. -/
def Uses (r : Record) (x : Reference) : Prop :=
  ∃ parameter v, r.Gives parameter v ∧ v.RefersTo x

/-- The tool of a record is one of the toolbox, with this description. -/
def Calls (r : Record) (box : Toolbox) (spec : Tool.Spec) : Prop :=
  ∃ tool, r.Says "toolname" tool ∧ box.spec? tool = some spec

end Record

/-- **Records depend on each other**: one of this name lists the other name. -/
def RecordsDepend (records : List Record) (name other : String) : Prop :=
  ∃ r ∈ records, r.Says "name" name ∧ r.Lists other

/-- **The rules for the records of a plan.** -/
structure WellFormed (box : Toolbox) (records : List Record) : Prop where
  /-- Every record has a name and a tool. -/
  complete : ∀ r ∈ records, r.Complete
  /-- No two records have the same name. -/
  apart : records.Pairwise Record.Apart
  /-- The tools are those of the toolbox. -/
  registered : ∀ r ∈ records, ∃ spec, r.Calls box spec
  /-- Inputs are mappings. -/
  mapping : ∀ r ∈ records, r.HasMapping
  /-- Values are given to parameters that the tool declares. -/
  declared : ∀ r ∈ records, ∀ parameter v, r.Gives parameter v →
    ∃ spec, r.Calls box spec ∧ parameter ∈ spec.inputs.keys
  /-- Only outputs of dependencies are used. -/
  listed : ∀ r ∈ records, ∀ x, r.Uses x → r.Lists x.step
  /-- A field that is used is one that the tool of its step declares. -/
  produced : ∀ r ∈ records, ∀ x field, r.Uses x → x.field = some field →
    ∃ r' ∈ records, r'.Says "name" x.step ∧ ∃ spec, r'.Calls box spec ∧ field ∈ spec.outputs.keys
  /-- Every dependency is on a record. -/
  known : ∀ r ∈ records, ∀ name, r.Lists name → ∃ r' ∈ records, r'.Says "name" name
  /-- No dependency goes round in a circle. -/
  acyclic : ∀ name, ¬ Relation.TransGen (RecordsDepend records) name name

end Plan

end Runbook
