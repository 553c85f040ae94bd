import Mathlib.Data.List.Induction
import Runbook.Plan.Wave
import Runbook.Proofs.Plan.Order

/-!
# Depths and waves

Depths are found by going through a row in which every step comes after its dependencies
(`Graph.Sorted`).  A depth that was found does not change, so in a graph with an order a step is at
depth `k` or less exactly if its dependencies are at depths less than `k` (`Graph.depth_le_iff`),
and the waves are the steps of each depth below the height of the graph (`Graph.waves_eq`).
-/

namespace Runbook.Plan.Graph
variable {g : Graph} {row : List String} {name : String} {step : Step} {k : Nat}

/-- **A row in which each step comes after its dependencies.** -/
structure Sorted (g : Graph) (row : List String) : Prop where
  /-- No step comes twice. -/
  nodup : row.Nodup
  /-- There are steps of the graph only. -/
  mem_names : ∀ name ∈ row, name ∈ g.names
  /-- A step comes after its dependencies. -/
  after : ∀ step ∈ g.steps, ∀ earlier later, row = earlier ++ step.name :: later →
    ∀ d ∈ step.dependencies.toList, d ∈ earlier

/-- In a graph with an order, the order that is found is such a row. -/
theorem sorted_placed (h : g.orderError? = none) : g.Sorted g.final.placed := by
  have hexact := Progress.Exact.progress g g.size
  refine ⟨(List.nodup_append.mp hexact.nodup).1, ?_, ?_⟩
  · exact fun name hname => hexact.mem_names name (List.mem_append_left _ hname)
  · intro step hstep earlier later hsplit d hd
    exact hexact.placed_after step hstep earlier later hsplit d hd
      (mem_names_of_dependsOn h ⟨step, hstep, rfl, hd⟩)

namespace Sorted

theorem of_concat (h : g.Sorted (row ++ [name])) : g.Sorted row where
  nodup := (List.nodup_append.mp h.nodup).1
  mem_names other hother := h.mem_names other (List.mem_append_left _ hother)
  after step hstep earlier later hsplit := by
    refine h.after step hstep earlier (later ++ [name]) ?_
    rw [hsplit, List.append_assoc, List.cons_append]

theorem last_not_mem (h : g.Sorted (row ++ [name])) : name ∉ row := fun hin =>
  (List.nodup_append.mp h.nodup).2.2 name hin name List.mem_cons_self rfl

/-- The dependencies of a step come before the last one. -/
theorem dependencies_mem (h : g.Sorted (row ++ [name])) (hstep : step ∈ g.steps)
    (hmem : step.name ∈ row ++ [name]) : ∀ d ∈ step.dependencies.toList, d ∈ row := by
  intro d hd
  obtain ⟨earlier, later, hsplit⟩ := List.append_of_mem hmem
  have hearlier := h.after step hstep earlier later hsplit d hd
  rcases split_concat hsplit with ⟨rfl, -⟩ | ⟨rest, rfl⟩
  · exact hearlier
  · exact List.mem_append_left _ hearlier

end Sorted

/-! ## Depths of a row -/

theorem foldl_deepest_le_iff (depths : List Nat) (least : Nat) :
    depths.foldl (fun deepest l => max deepest (l + 1)) least ≤ k ↔
      least ≤ k ∧ ∀ l ∈ depths, l < k := by
  induction depths generalizing least with
  | nil => simp
  | cons l rest ih =>
    rw [List.foldl_cons, ih, List.forall_mem_cons, Nat.max_le]
    exact and_assoc

theorem depthAbove_le_iff {depths : Table Nat} :
    depthAbove depths step ≤ k ↔
      ∀ d ∈ step.dependencies.toList, ∀ l, depths.get? d = some l → l < k := by
  unfold depthAbove
  rw [foldl_deepest_le_iff]
  simp only [Nat.zero_le, true_and, List.mem_filterMap]
  constructor
  · exact fun h d hd l hl => h l ⟨d, hd, hl⟩
  · rintro h l ⟨d, hd, hl⟩
    exact h d hd l hl

theorem depthAbove_congr {depths others : Table Nat}
    (h : ∀ d ∈ step.dependencies.toList, depths.get? d = others.get? d) :
    depthAbove depths step = depthAbove others step := by
  unfold depthAbove
  rw [List.filterMap_congr h]

theorem depths_concat (hstep : step ∈ g.steps) :
    g.depths (row ++ [step.name]) =
      (g.depths row).put step.name (depthAbove (g.depths row) step) := by
  have hfind : g.find? step.name = some step := find?_eq_some_iff.mpr ⟨hstep, rfl⟩
  unfold depths
  rw [List.foldl_append]
  simp only [List.foldl_cons, List.foldl_nil, hfind]

namespace Sorted

theorem keys_depths (h : g.Sorted row) : (g.depths row).keys = row := by
  induction row using List.reverseRecOn with
  | nil => rfl
  | append_singleton row last ih =>
    obtain ⟨step, hstep, rfl⟩ := Graph.mem_names.mp (h.mem_names last (by simp))
    have hkeys := ih h.of_concat
    have hnew : step.name ∉ (g.depths row).keys := by
      rw [hkeys]
      exact h.last_not_mem
    rw [depths_concat hstep, Table.keys_put_of_not_mem hnew, hkeys]

/-- **The depth of a step stays what it was when it was found.** -/
theorem get?_depths (h : g.Sorted row) (hstep : step ∈ g.steps) (hmem : step.name ∈ row) :
    (g.depths row).get? step.name = some (depthAbove (g.depths row) step) := by
  induction row using List.reverseRecOn with
  | nil => exact absurd hmem List.not_mem_nil
  | append_singleton row last ih =>
    obtain ⟨other, hother, rfl⟩ := Graph.mem_names.mp (h.mem_names last (by simp))
    have hbefore := h.dependencies_mem hstep hmem
    -- the depths of the dependencies are not touched by the last step of the row
    have hsame : depthAbove (g.depths (row ++ [other.name])) step =
        depthAbove (g.depths row) step := by
      apply depthAbove_congr
      intro d hd
      have hne : d ≠ other.name := fun heq => h.last_not_mem (heq ▸ hbefore d hd)
      rw [depths_concat hother, Table.get?_put, if_neg hne]
    rw [hsame, depths_concat hother, Table.get?_put]
    by_cases hname : step.name = other.name
    · obtain rfl := step_eq_of_name hstep hother hname
      exact if_pos rfl
    · rw [if_neg hname]
      refine ih h.of_concat ?_
      rcases List.mem_append.mp hmem with hin | hin
      · exact hin
      · exact absurd (List.mem_singleton.mp hin) hname

end Sorted

/-! ## Depths of a graph -/

/-- **The depth of a step.** -/
def depth (g : Graph) (name : String) : Nat :=
  ((g.depths g.final.placed).get? name).getD 0

/-- **The steps at a depth**, in order of declaration. -/
def wave (g : Graph) (k : Nat) : List String :=
  g.names.filter fun name => g.depth name == k

/-- **The height of a graph**: the number of depths at which it has steps. -/
def height (g : Graph) : Nat :=
  (g.depths g.final.placed).values.foldl (fun most k => max most (k + 1)) 0

theorem mem_wave : name ∈ g.wave k ↔ name ∈ g.names ∧ g.depth name = k := by
  unfold wave
  rw [List.mem_filter, beq_iff_eq]

section Order
variable (h : g.orderError? = none)
include h

theorem get?_depths_placed (hname : name ∈ g.names) :
    (g.depths g.final.placed).get? name = some (g.depth name) := by
  obtain ⟨step, hstep, rfl⟩ := mem_names.mp hname
  unfold depth
  rw [(sorted_placed h).get?_depths hstep (mem_placed h hname)]
  rfl

/-- **A step is deeper than its dependencies, and no deeper than that.** -/
theorem depth_le_iff (hstep : step ∈ g.steps) :
    g.depth step.name ≤ k ↔ ∀ d ∈ step.dependencies.toList, g.depth d < k := by
  have hname := name_mem_names hstep
  have hfound : g.depth step.name = depthAbove (g.depths g.final.placed) step :=
    Option.some.inj ((get?_depths_placed h hname).symm.trans
      ((sorted_placed h).get?_depths hstep (mem_placed h hname)))
  have hget : ∀ d ∈ step.dependencies.toList,
      (g.depths g.final.placed).get? d = some (g.depth d) := fun d hd =>
    get?_depths_placed h (mem_names_of_dependsOn h ⟨step, hstep, rfl, hd⟩)
  rw [hfound, depthAbove_le_iff]
  constructor
  · exact fun hall d hd => hall d hd _ (hget d hd)
  · intro hall d hd l hl
    obtain rfl : g.depth d = l := Option.some.inj ((hget d hd).symm.trans hl)
    exact hall d hd

/-- The steps of a graph are those at depths below its height. -/
theorem height_le_iff : g.height ≤ k ↔ ∀ name ∈ g.names, g.depth name < k := by
  have hsorted := sorted_placed h
  unfold height
  rw [foldl_deepest_le_iff]
  simp only [Nat.zero_le, true_and]
  constructor
  · intro hall name hname
    have hvalue : g.depth name ∈ (g.depths g.final.placed).values :=
      List.mem_map_of_mem (Table.mem_of_get? (get?_depths_placed h hname))
    exact hall _ hvalue
  · intro hall l hl
    obtain ⟨⟨name, l⟩, hentry, rfl⟩ := List.mem_map.mp hl
    have hkeys := hsorted.keys_depths
    have hnodup : (g.depths g.final.placed).keys.Nodup := by
      rw [hkeys]
      exact hsorted.nodup
    have hfound := (Table.get?_eq_some_iff hnodup).mpr hentry
    have hname : name ∈ g.names := by
      have hkey : name ∈ (g.depths g.final.placed).keys := List.mem_map_of_mem hentry
      exact hsorted.mem_names name (hkeys ▸ hkey)
    obtain rfl : g.depth name = l :=
      Option.some.inj ((get?_depths_placed h hname).symm.trans hfound)
    exact hall name hname

/-- **The waves of a graph are its steps by depth.** -/
theorem waves_eq : g.waves = .ok ((List.range g.height).map g.wave) := by
  have horder : g.order = .ok g.final.placed := by
    unfold order
    rw [h]
  have hwave : g.atDepth (g.depths g.final.placed) = g.wave := by
    funext k
    apply List.filter_congr
    intro name hname
    rw [get?_depths_placed h hname]
    rfl
  unfold waves
  rw [horder]
  show Except.ok ((List.range g.height).map (g.atDepth (g.depths g.final.placed))) = _
  rw [hwave]

end Order

end Runbook.Plan.Graph
