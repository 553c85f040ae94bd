/-!
# Sets of names

A finite set of names that keeps the order in which they were inserted.  Inserting a name again
changes nothing, and erasing one leaves the others in their order.
-/

namespace Runbook

/-- **A set of names**, in the order of insertion. -/
structure NameSet where
  /-- The names, in order. -/
  toList : List String
  /-- No name occurs twice. -/
  nodup : toList.Nodup
deriving DecidableEq

namespace NameSet

/-- The set without names. -/
def empty : NameSet := ⟨[], List.nodup_nil⟩

instance : EmptyCollection NameSet := ⟨empty⟩

instance : Inhabited NameSet := ⟨empty⟩

instance : Membership String NameSet := ⟨fun s name => name ∈ s.toList⟩

instance (name : String) (s : NameSet) : Decidable (name ∈ s) :=
  inferInstanceAs (Decidable (name ∈ s.toList))

/-- The name is in the set. -/
def contains (s : NameSet) (name : String) : Bool :=
  s.toList.contains name

/-- The number of names. -/
def size (s : NameSet) : Nat :=
  s.toList.length

/-- There are no names. -/
def isEmpty (s : NameSet) : Bool :=
  s.toList.isEmpty

theorem nodup_append_singleton {names : List String} {name : String} (h : names.Nodup)
    (hn : name ∉ names) : (names ++ [name]).Nodup := by
  rw [List.nodup_append]
  refine ⟨h, by simp, ?_⟩
  intro a ha b hb
  simp only [List.mem_singleton] at hb
  subst hb
  exact fun hab => hn (hab ▸ ha)

/-- The set with a name, at the end if it is new. -/
def insert (s : NameSet) (name : String) : NameSet :=
  if h : name ∈ s.toList then s else ⟨s.toList ++ [name], nodup_append_singleton s.nodup h⟩

/-- The set without a name. -/
def erase (s : NameSet) (name : String) : NameSet :=
  ⟨s.toList.erase name, s.nodup.erase name⟩

/-- The names of a list; a repeated one counts where it first occurs. -/
def ofList (names : List String) : NameSet :=
  names.foldl insert empty

/-! ## Laws -/

@[simp] theorem toList_empty : (∅ : NameSet).toList = [] := rfl

@[simp] theorem not_mem_empty (name : String) : name ∉ (∅ : NameSet) :=
  List.not_mem_nil

theorem toList_insert (s : NameSet) (name : String) :
    (s.insert name).toList = if name ∈ s.toList then s.toList else s.toList ++ [name] := by
  unfold insert
  split <;> simp [*]

@[simp] theorem mem_insert {s : NameSet} {name other : String} :
    other ∈ s.insert name ↔ other = name ∨ other ∈ s := by
  change other ∈ (s.insert name).toList ↔ other = name ∨ other ∈ s.toList
  rw [toList_insert]
  split
  · constructor
    · exact Or.inr
    · rintro (rfl | h) <;> assumption
  · simp [or_comm]

theorem mem_foldl_insert {names : List String} {s : NameSet} {name : String} :
    name ∈ names.foldl insert s ↔ name ∈ s ∨ name ∈ names := by
  induction names generalizing s with
  | nil => simp
  | cons first rest ih =>
    rw [List.foldl_cons, ih, mem_insert, List.mem_cons, or_comm (a := name = first), or_assoc]

@[simp] theorem mem_ofList {names : List String} {name : String} :
    name ∈ ofList names ↔ name ∈ names := by
  rw [ofList, mem_foldl_insert]
  exact or_iff_right (not_mem_empty name)

@[simp] theorem mem_erase {s : NameSet} {name other : String} :
    other ∈ s.erase name ↔ other ≠ name ∧ other ∈ s :=
  s.nodup.mem_erase_iff

@[simp] theorem contains_iff {s : NameSet} {name : String} :
    s.contains name = true ↔ name ∈ s :=
  List.contains_iff_mem

@[simp] theorem contains_eq_false_iff {s : NameSet} {name : String} :
    s.contains name = false ↔ name ∉ s := by
  rw [← contains_iff, Bool.not_eq_true]

theorem contains_insert_of_ne {s : NameSet} {name other : String} (h : other ≠ name) :
    (s.insert name).contains other = s.contains other := by
  rw [Bool.eq_iff_iff, contains_iff, contains_iff, mem_insert]
  exact or_iff_right h

theorem toList_insert_of_not_mem {s : NameSet} {name : String} (h : name ∉ s) :
    (s.insert name).toList = s.toList ++ [name] := by
  rw [toList_insert]
  exact if_neg h

theorem size_erase_le (s : NameSet) (name : String) : (s.erase name).size ≤ s.size :=
  List.erase_sublist.length_le

theorem size_erase_lt {s : NameSet} {name : String} (h : name ∈ s) :
    (s.erase name).size < s.size := by
  have hlen : (s.toList.erase name).length = s.toList.length - 1 := List.length_erase_of_mem h
  have hpos : 0 < s.toList.length := List.length_pos_of_mem h
  change (s.toList.erase name).length < s.toList.length
  omega

theorem size_lt_of_subset {s t : NameSet} {name : String} (hsub : ∀ n ∈ s, n ∈ t)
    (ht : name ∈ t) (hs : name ∉ s) : s.size < t.size := by
  have hnodup : (name :: s.toList).Nodup := List.nodup_cons.mpr ⟨hs, s.nodup⟩
  exact hnodup.length_le_of_subset (List.cons_subset.mpr ⟨ht, hsub⟩)

end NameSet

end Runbook
