import Runbook.Json.Reader

/-!
# Objects that repeat no name

The text of an object may give a name to two members; what is read has each name once, in its first
place and with its last value (`distinct_of_read?`).  A value that repeats no name is left as it is
(`Distinct.merged_eq`), so its members keep their order.
-/

namespace Runbook

namespace Table
variable {α : Type}

theorem foldl_put_eq_append {t entries : Table α} (h : (t ++ entries).keys.Nodup) :
    entries.foldl (fun t e => put t e.1 e.2) t = t ++ entries := by
  induction entries generalizing t with
  | nil => exact (List.append_nil t).symm
  | cons e rest ih =>
    have happend : t ++ e :: rest = (t ++ [e]) ++ rest := (List.append_assoc t [e] rest).symm
    have hnew : e.1 ∉ keys t := by
      rw [keys, List.map_append, List.nodup_append] at h
      exact fun hmem => h.2.2 e.1 hmem e.1 List.mem_cons_self rfl
    rw [List.foldl_cons, put_of_not_mem hnew, happend]
    exact ih (happend ▸ h)

/-- Entries of distinct names fill the table that they are. -/
theorem ofEntries_eq {entries : Table α} (h : entries.keys.Nodup) : ofEntries entries = entries :=
  foldl_put_eq_append h

theorem eq_or_mem_of_mem_put {t : Table α} {name : String} {value : α} {e : String × α}
    (h : e ∈ t.put name value) : e = (name, value) ∨ e ∈ t := by
  induction t with
  | nil => exact Or.inl (List.mem_singleton.mp h)
  | cons first rest ih =>
    unfold put at h
    split at h
    · rename_i hname
      rcases List.mem_cons.mp h with heq | hrest
      · exact Or.inl (hname ▸ heq)
      · exact Or.inr (List.mem_cons_of_mem first hrest)
    · rcases List.mem_cons.mp h with heq | hrest
      · exact Or.inr (heq ▸ List.mem_cons_self)
      · exact (ih hrest).imp_right (List.mem_cons_of_mem first)

theorem nodup_keys_foldl_put {t : Table α} (h : t.keys.Nodup) (entries : Table α) :
    (entries.foldl (fun t e => put t e.1 e.2) t).keys.Nodup := by
  induction entries generalizing t with
  | nil => exact h
  | cons e rest ih => exact ih (nodup_keys_put h e.1 e.2)

theorem mem_or_mem_of_mem_foldl_put {t entries : Table α} {e : String × α}
    (h : e ∈ entries.foldl (fun t e => put t e.1 e.2) t) : e ∈ t ∨ e ∈ entries := by
  induction entries generalizing t with
  | nil => exact Or.inl h
  | cons first rest ih =>
    rcases ih h with hput | hrest
    · rcases eq_or_mem_of_mem_put hput with rfl | hold
      · exact Or.inr List.mem_cons_self
      · exact Or.inl hold
    · exact Or.inr (List.mem_cons_of_mem first hrest)

theorem nodup_keys_ofEntries (entries : Table α) : (ofEntries entries).keys.Nodup :=
  nodup_keys_foldl_put (show (keys ([] : Table α)).Nodup from List.nodup_nil) entries

/-- A table that is filled has no values but those of its entries. -/
theorem mem_of_mem_ofEntries {entries : Table α} {e : String × α} (h : e ∈ ofEntries entries) :
    e ∈ entries :=
  (mem_or_mem_of_mem_foldl_put h).resolve_left List.not_mem_nil

end Table

namespace Json

mutual

/-- **No object of the value repeats a name.** -/
def Distinct : Json → Prop
  | array items => ItemsDistinct items
  | object members => (Table.keys members).Nodup ∧ MembersDistinct members
  | _ => True

/-- No object of these items repeats a name. -/
def ItemsDistinct : List Json → Prop
  | [] => True
  | v :: rest => v.Distinct ∧ ItemsDistinct rest

/-- No object of the values of these members repeats a name. -/
def MembersDistinct : List (String × Json) → Prop
  | [] => True
  | (_, v) :: rest => v.Distinct ∧ MembersDistinct rest

end

mutual

/-- **A value that repeats no name is merged to itself.** -/
theorem Distinct.merged_eq : (v : Json) → v.Distinct → v.merged = v
  | null, _ => rfl
  | boolean _, _ => rfl
  | number _, _ => rfl
  | text _, _ => rfl
  | array items, h => congrArg array (mergedList_eq items h)
  | object members, h => by
    rw [merged, mergedMembers_eq members h.2, Table.ofEntries_eq h.1]

theorem mergedList_eq : (items : List Json) → ItemsDistinct items → mergedList items = items
  | [], _ => rfl
  | v :: rest, h => by
    rw [mergedList, Distinct.merged_eq v h.1, mergedList_eq rest h.2]

theorem mergedMembers_eq : (members : List (String × Json)) → MembersDistinct members →
    mergedMembers members = members
  | [], _ => rfl
  | (k, v) :: rest, h => by
    rw [mergedMembers, Distinct.merged_eq v h.1, mergedMembers_eq rest h.2]

end

theorem membersDistinct_iff {members : List (String × Json)} :
    MembersDistinct members ↔ ∀ e ∈ members, e.2.Distinct := by
  induction members with
  | nil => simp [MembersDistinct]
  | cons e rest ih =>
    rw [List.forall_mem_cons, ← ih]
    exact Iff.rfl

mutual

/-- **Merging leaves no name repeated.** -/
theorem distinct_merged : (v : Json) → v.merged.Distinct
  | null => trivial
  | boolean _ => trivial
  | number _ => trivial
  | text _ => trivial
  | array items => itemsDistinct_mergedList items
  | object members => by
    have hmembers := membersDistinct_iff.mp (membersDistinct_mergedMembers members)
    exact ⟨Table.nodup_keys_ofEntries _,
      membersDistinct_iff.mpr fun e he => hmembers e (Table.mem_of_mem_ofEntries he)⟩

theorem itemsDistinct_mergedList : (items : List Json) → ItemsDistinct (mergedList items)
  | [] => trivial
  | v :: rest => ⟨distinct_merged v, itemsDistinct_mergedList rest⟩

theorem membersDistinct_mergedMembers : (members : List (String × Json)) →
    MembersDistinct (mergedMembers members)
  | [] => trivial
  | (_, v) :: rest => ⟨distinct_merged v, membersDistinct_mergedMembers rest⟩

end

/-- **What is read repeats no name.** -/
theorem distinct_of_read? {s : String} {v : Json} (h : read? s = some v) : v.Distinct := by
  obtain ⟨written, -, rfl⟩ := Option.map_eq_some_iff.mp h
  exact distinct_merged written

end Json

end Runbook
