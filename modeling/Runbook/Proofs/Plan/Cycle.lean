import Mathlib.Logic.Relation
import Mathlib.Order.WellFoundedSet
import Runbook.Proofs.Plan.Order

/-!
# Cycles

The steps that are never placed are those on a cycle of dependencies and those behind one
(`Graph.mem_cycleMembers_iff`); nothing in the placing of steps looks for a cycle.  After as many
placements as a graph has steps the queue is empty (`Graph.queue_final`), so every step that is not
placed waits for another one that is not placed, and among finitely many steps that leads into a
circle.  A step that is placed, on the other hand, comes after all that it leads to, and so to no
circle.
-/

namespace Runbook.Plan

/-- **Among finitely many names that each lead to one of them, each leads to a circle.** -/
theorem exists_transGen_self {r : String → String → Prop} {names : List String}
    (h : ∀ name ∈ names, ∃ other ∈ names, r name other) {name : String} (hname : name ∈ names) :
    ∃ other, Relation.ReflTransGen r name other ∧ Relation.TransGen r other other := by
  by_contra hnone
  push Not at hnone
  -- with no circle in reach, "leads to" is a strict order of the names in reach
  let reached := {other // other ∈ names ∧ Relation.ReflTransGen r name other}
  let above := fun a b : reached => Relation.TransGen r b.1 a.1
  have hfinite : Finite reached := (names.finite_toSet.subset fun _ h => h.1).to_subtype
  have htrans : IsTrans reached above := ⟨fun _ _ _ hab hbc => hbc.trans hab⟩
  have hirrefl : Std.Irrefl above := ⟨fun a => hnone a.1 a.2.2⟩
  obtain ⟨last, -, hlast⟩ := (Finite.wellFounded_of_trans_of_irrefl above).has_min Set.univ
    ⟨⟨name, hname, .refl⟩, trivial⟩
  obtain ⟨next, hnext, hstep⟩ := h last.1 last.2.1
  exact hlast ⟨next, hnext, last.2.2.tail hstep⟩ trivial (.single hstep)

namespace Graph
variable {g : Graph} {name other : String}

/-- **A graph without cycles**: no step comes before itself, directly or through others. -/
def Acyclic (g : Graph) : Prop :=
  ∀ name, ¬ Relation.TransGen g.DependsOn name name

/-- **An edge of a graph**: a step depends on a step.  A dependency on a name that is no step of the
graph is none. -/
def Edge (g : Graph) (name other : String) : Prop :=
  g.DependsOn name other ∧ other ∈ g.names

/-- **A step is on a cycle or behind one**: along edges, if any are needed, it leads to a step that
leads to itself. -/
def LeadsToCycle (g : Graph) (name : String) : Prop :=
  ∃ other, Relation.ReflTransGen g.Edge name other ∧ Relation.TransGen g.Edge other other

/-! ## Nothing is left in the queue -/

/-- As long as there are steps in the queue, each placement places one. -/
theorem length_placed (k : Nat) : (g.progress k).queue = [] ∨ (g.progress k).placed.length = k := by
  induction k with
  | zero => exact Or.inr rfl
  | succ k ih =>
    show (g.place (g.progress k)).queue = [] ∨ (g.place (g.progress k)).placed.length = k + 1
    unfold place
    cases hqueue : (g.progress k).queue with
    | nil => exact Or.inl hqueue
    | cons name rest =>
      have hlength := ih.resolve_left fun hnil => by
        rw [hqueue] at hnil
        cases hnil
      refine Or.inr ?_
      show ((g.progress k).placed ++ [name]).length = k + 1
      rw [List.length_append, hlength]
      rfl

theorem queue_final (g : Graph) : g.final.queue = [] := by
  have hexact := Progress.Exact.progress g g.size
  rcases length_placed (g := g) g.size with hnil | hlength
  · exact hnil
  · have hle : (g.final.placed ++ g.final.queue).length ≤ g.size := hexact.length_le
    rw [List.length_append] at hle
    change g.final.placed.length = g.size at hlength
    exact List.eq_nil_of_length_eq_zero (by omega)

/-! ## Steps that are never placed -/

theorem mem_cycleMembers {name : String} :
    name ∈ g.cycleMembers ↔ name ∈ g.names ∧ name ∉ g.final.placed := by
  unfold cycleMembers
  simp

/-- **A step that is never placed waits for another one.** -/
theorem exists_dependsOn_of_mem {name : String} (h : name ∈ g.cycleMembers) :
    ∃ other ∈ g.cycleMembers, g.DependsOn name other := by
  obtain ⟨hname, hplaced⟩ := mem_cycleMembers.mp h
  obtain ⟨step, hstep, rfl⟩ := mem_names.mp hname
  have hexact := Progress.Exact.progress g g.size
  have hwaits : g.waitingFor g.final.placed step ≠ 0 := fun hzero => by
    have hin := (hexact.mem_iff step hstep).mpr hzero
    change step.name ∈ g.final.placed ++ g.final.queue at hin
    rw [queue_final, List.append_nil] at hin
    exact hplaced hin
  rw [Ne, waitingFor_eq_zero_iff] at hwaits
  push Not at hwaits
  obtain ⟨other, hdep, hmem, hnot⟩ := hwaits
  exact ⟨other, mem_cycleMembers.mpr ⟨hmem, hnot⟩, step, hstep, rfl, hdep⟩

theorem leadsToCycle_of_mem (h : name ∈ g.cycleMembers) : g.LeadsToCycle name := by
  have hnext : ∀ waiting ∈ g.cycleMembers, ∃ other ∈ g.cycleMembers, g.Edge waiting other := by
    intro waiting hwaiting
    obtain ⟨other, hother, hdep⟩ := exists_dependsOn_of_mem hwaiting
    exact ⟨other, hother, hdep, (mem_cycleMembers.mp hother).1⟩
  exact exists_transGen_self hnext h

/-! ## Steps that are placed -/

/-- What a placed step leads to is placed … -/
theorem mem_placed_of_reflTransGen (hname : name ∈ g.final.placed)
    (hpath : Relation.ReflTransGen g.Edge name other) : other ∈ g.final.placed := by
  induction hpath with
  | refl => exact hname
  | tail _ hedge ih => exact (placed_before ih hedge.1 hedge.2).1

/-- … and placed before it. -/
theorem idxOf_placed_lt_of_transGen (hname : name ∈ g.final.placed)
    (hpath : Relation.TransGen g.Edge name other) :
    g.final.placed.idxOf other < g.final.placed.idxOf name := by
  induction hpath with
  | single hedge => exact (placed_before hname hedge.1 hedge.2).2
  | tail hpath hedge ih =>
    have hmem := mem_placed_of_reflTransGen hname hpath.to_reflTransGen
    exact Nat.lt_trans (placed_before hmem hedge.1 hedge.2).2 ih

/-- A step that leads to a cycle is a step of the graph. -/
theorem LeadsToCycle.mem_names (h : g.LeadsToCycle name) : name ∈ g.names := by
  obtain ⟨other, hpath, hcycle⟩ := h
  obtain ⟨next, hedge, -⟩ := Relation.TransGen.head'_iff.mp (.trans_right hpath hcycle)
  exact hedge.1.mem_names

/-- **The steps that are never placed are those on a cycle and those behind one.** -/
theorem mem_cycleMembers_iff : name ∈ g.cycleMembers ↔ g.LeadsToCycle name := by
  refine ⟨leadsToCycle_of_mem, fun h => mem_cycleMembers.mpr ⟨h.mem_names, fun hplaced => ?_⟩⟩
  obtain ⟨other, hpath, hcycle⟩ := h
  have hother := mem_placed_of_reflTransGen hplaced hpath
  exact Nat.lt_irrefl _ (idxOf_placed_lt_of_transGen hother hcycle)

theorem cycleMembers_sublist (g : Graph) : g.cycleMembers.Sublist g.names :=
  List.filter_sublist

/-! ## Graphs without cycles -/

/-- **In a graph without cycles every step is placed.** -/
theorem Acyclic.cycleMembers_eq_nil (h : g.Acyclic) : g.cycleMembers = [] := by
  refine List.eq_nil_iff_forall_not_mem.mpr fun name hname => ?_
  obtain ⟨other, -, hcycle⟩ := leadsToCycle_of_mem hname
  exact h other (Relation.TransGen.mono (fun _ _ => And.left) _ _ hcycle)

/-- **A graph with an order has no cycles.** -/
theorem acyclic_of_orderError?_eq_none (h : g.orderError? = none) : g.Acyclic := by
  intro name hcycle
  have hfounded := (wellFounded_dependsOn h).transGen
  exact hfounded.asymmetric _ _ (Relation.transGen_swap.mpr hcycle)
    (Relation.transGen_swap.mpr hcycle)

/-- A graph that misses no step, and all of whose steps are placed, has an order. -/
theorem orderError?_eq_none (hknown : ∀ name other, g.DependsOn name other → other ∈ g.names)
    (hmembers : g.cycleMembers = []) : g.orderError? = none := by
  unfold orderError?
  rw [unknownDependency?_eq_none_iff.mpr hknown, hmembers]
  rfl

/-- **A graph that misses no step and has a cycle has no order**, and the steps on a cycle or behind
one are why. -/
theorem orderError?_of_leadsToCycle
    (hknown : ∀ name other, g.DependsOn name other → other ∈ g.names) (h : g.LeadsToCycle name) :
    g.orderError? = some (.cycle g.cycleMembers) := by
  have hmembers : g.cycleMembers.isEmpty = false :=
    List.isEmpty_eq_false_iff_exists_mem.mpr ⟨name, mem_cycleMembers_iff.mpr h⟩
  unfold orderError?
  rw [unknownDependency?_eq_none_iff.mpr hknown, hmembers]
  rfl

/-- **The steps that are never placed are exactly those on a cycle or behind one.**  They are listed
in order of declaration, none twice, and there are none exactly if no step leads to itself. -/
theorem cycleMembers_exact (g : Graph) :
    g.cycleMembers.Sublist g.names ∧ g.cycleMembers.Nodup ∧
      (∀ name, name ∈ g.cycleMembers ↔ g.LeadsToCycle name) ∧
      (g.cycleMembers = [] ↔ ∀ name, ¬ Relation.TransGen g.Edge name name) := by
  refine ⟨g.cycleMembers_sublist, g.names_nodup.sublist g.cycleMembers_sublist,
    fun _ => mem_cycleMembers_iff, ?_⟩
  rw [List.eq_nil_iff_forall_not_mem]
  constructor
  · exact fun hnil name hcycle => hnil name (mem_cycleMembers_iff.mpr ⟨name, .refl, hcycle⟩)
  · intro hacyclic name hname
    obtain ⟨other, -, hcycle⟩ := mem_cycleMembers_iff.mp hname
    exact hacyclic other hcycle

end Graph

end Runbook.Plan
