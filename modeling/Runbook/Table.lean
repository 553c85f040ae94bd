/-!
# Tables by name

A table gives values to names and keeps the order in which the names were first written.  Writing
a name again changes its value and leaves its place (`Table.put`), so the names of a table are
distinct whenever it was filled by `put` (`Table.nodup_keys_put`).
-/

namespace Runbook

/-- **A table by name**, in the order of first writing. -/
abbrev Table (α : Type) := List (String × α)

namespace Table

variable {α β : Type}

/-- The value of a name. -/
def get? (t : Table α) (name : String) : Option α :=
  match t with
  | [] => none
  | (n, v) :: rest => if n = name then some v else Table.get? rest name

/-- The names, in order. -/
def keys (t : Table α) : List String :=
  t.map Prod.fst

/-- The values, in order. -/
def values (t : Table α) : List α :=
  t.map Prod.snd

/-- The name is in the table. -/
def contains (t : Table α) (name : String) : Bool :=
  t.keys.contains name

/-- Gives a value to a name: in place if the name is there, else at the end. -/
def put (t : Table α) (name : String) (value : α) : Table α :=
  match t with
  | [] => [(name, value)]
  | (n, v) :: rest =>
    if n = name then (n, value) :: rest else (n, v) :: Table.put rest name value

/-- The table that a list of entries fills; of a repeated name the last value counts. -/
def ofEntries (entries : List (String × α)) : Table α :=
  entries.foldl (fun t e => Table.put t e.1 e.2) []

/-- The same names with other values. -/
def mapValues (t : Table α) (f : α → β) : Table β :=
  t.map fun e => (e.1, f e.2)

/-- Changes the value of a name, if it is there. -/
def modify (t : Table α) (name : String) (f : α → α) : Table α :=
  t.map fun e => if e.1 = name then (e.1, f e.2) else e

/-! ## Laws -/

theorem keys_put (t : Table α) (name : String) (value : α) :
    (t.put name value).keys = if name ∈ t.keys then t.keys else t.keys ++ [name] := by
  induction t with
  | nil => simp [put, keys]
  | cons e rest ih =>
    by_cases h : e.1 = name
    · simp [put, keys, h]
    · have h' : ¬ name = e.1 := fun x => h x.symm
      simp only [keys] at ih
      by_cases hm : name ∈ List.map Prod.fst rest <;> simp [put, keys, h, h', ih, hm]

theorem nodup_keys_put {t : Table α} (h : t.keys.Nodup) (name : String) (value : α) :
    (t.put name value).keys.Nodup := by
  rw [keys_put]
  split
  · exact h
  · rename_i hn
    rw [List.nodup_append]
    refine ⟨h, by simp, ?_⟩
    intro a ha b hb
    simp only [List.mem_singleton] at hb
    subst hb
    exact fun hab => hn (hab ▸ ha)

theorem get?_put (t : Table α) (name other : String) (value : α) :
    (t.put name value).get? other = if other = name then some value else t.get? other := by
  induction t with
  | nil => simp [put, get?, eq_comm]
  | cons e rest ih =>
    by_cases h : e.1 = name
    · by_cases ho : other = name
      · simp [put, get?, h, ho]
      · have ho' : ¬ name = other := fun x => ho x.symm
        simp [put, get?, h, ho, ho']
    · by_cases ho : e.1 = other
      · subst ho
        simp [put, get?, h]
      · simp [put, get?, h, ho, ih]

@[simp] theorem contains_iff {t : Table α} {name : String} :
    t.contains name = true ↔ name ∈ t.keys :=
  List.contains_iff_mem

theorem keys_put_of_not_mem {t : Table α} {name : String} (h : name ∉ t.keys) (value : α) :
    (t.put name value).keys = t.keys ++ [name] := by
  rw [keys_put]
  exact if_neg h

theorem put_ne_nil (t : Table α) (name : String) (value : α) : t.put name value ≠ [] := by
  cases t with
  | nil => exact List.cons_ne_nil _ _
  | cons e rest =>
    unfold put
    split <;> exact List.cons_ne_nil _ _

theorem put_of_not_mem {t : Table α} {name : String} (h : name ∉ t.keys) (value : α) :
    t.put name value = t ++ [(name, value)] := by
  induction t with
  | nil => rfl
  | cons e rest ih =>
    obtain ⟨n, v⟩ := e
    have hne : n ≠ name := fun heq => h (heq ▸ List.mem_cons_self)
    have hrest : name ∉ keys rest := fun hin => h (List.mem_cons_of_mem _ hin)
    unfold put
    rw [if_neg hne, ih hrest]
    rfl

theorem get?_eq_none_iff {t : Table α} {name : String} : t.get? name = none ↔ name ∉ t.keys := by
  induction t with
  | nil => simp [get?, keys]
  | cons e rest ih =>
    by_cases h : e.1 = name
    · simp [get?, keys, h]
    · have h' : ¬ name = e.1 := fun x => h x.symm
      simp only [keys] at ih
      simp [get?, keys, h, h', ih]

theorem mem_of_get? {t : Table α} {name : String} {value : α} (h : t.get? name = some value) :
    (name, value) ∈ t := by
  induction t with
  | nil => cases h
  | cons e rest ih =>
    obtain ⟨n, v⟩ := e
    unfold get? at h
    split at h
    · rename_i hname
      cases h
      exact hname ▸ List.mem_cons_self
    · exact List.mem_cons_of_mem _ (ih h)

/-- In a table of distinct names, every entry is found. -/
theorem get?_eq_some_iff {t : Table α} (hkeys : t.keys.Nodup) {name : String} {value : α} :
    t.get? name = some value ↔ (name, value) ∈ t := by
  refine ⟨mem_of_get?, ?_⟩
  induction t with
  | nil => exact fun h => absurd h List.not_mem_nil
  | cons e rest ih =>
    obtain ⟨n, v⟩ := e
    obtain ⟨hnot, hrest⟩ := List.nodup_cons.mp hkeys
    intro h
    unfold get?
    rcases List.mem_cons.mp h with heq | hmem
    · cases heq
      exact if_pos rfl
    · have hin : name ∈ rest.map Prod.fst := List.mem_map_of_mem hmem
      have hne : n ≠ name := fun heq => hnot (heq ▸ hin)
      rw [if_neg hne]
      exact ih hrest hmem

/-- Tables of the same distinct names in one order are the same if they give the same values. -/
theorem eq_of_get?_eq {t u : Table α} (hkeys : t.keys = u.keys) (hnodup : t.keys.Nodup)
    (h : ∀ name, t.get? name = u.get? name) : t = u := by
  induction t generalizing u with
  | nil => exact (List.map_eq_nil_iff.mp hkeys.symm).symm
  | cons e rest ih =>
    obtain ⟨n, v⟩ := e
    cases u with
    | nil => cases hkeys
    | cons e' rest' =>
      obtain ⟨n', v'⟩ := e'
      obtain ⟨rfl, hrest⟩ : n = n' ∧ keys rest = keys rest' := List.cons.inj hkeys
      obtain ⟨hnot, hnodup⟩ := List.nodup_cons.mp hnodup
      have hvalue := h n
      simp only [get?, ite_true, Option.some.injEq] at hvalue
      obtain rfl := hvalue
      refine congrArg _ (ih hrest hnodup fun name => ?_)
      by_cases hname : n = name
      · subst hname
        rw [get?_eq_none_iff.mpr hnot, get?_eq_none_iff.mpr (hrest ▸ hnot)]
      · have hthis := h name
        rwa [get?, get?, if_neg hname, if_neg hname] at hthis

end Table

end Runbook
