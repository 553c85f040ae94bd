import Mathlib.Data.List.Nodup
import Mathlib.Order.WellFounded
import Runbook.Proofs.Plan.Graph

/-!
# Placing the steps of a graph

The counters with which steps are placed are exact: a step waits for as many steps as it has
dependencies among the steps of the graph that are not placed (`Progress.Exact`, kept by every
placement).  So a step is placed after its dependencies, and a graph all of whose steps are placed
has no infinite descent along dependencies (`Graph.wellFounded_dependsOn`).  A graph that misses a
step has no order; why is told by its first dependency on a missing one (`Graph.FirstMissing`).
-/

namespace Runbook.Plan

/-- Where a name stands in a list that got one more at its end. -/
theorem split_concat {α : Type} {names earlier later : List α} {name last : α}
    (h : names ++ [last] = earlier ++ name :: later) :
    (earlier = names ∧ name = last) ∨ ∃ rest, names = earlier ++ name :: rest := by
  rcases List.eq_nil_or_concat later with rfl | ⟨rest, x, rfl⟩
  · have heq := List.append_inj' h rfl
    exact Or.inl ⟨heq.1.symm, (List.singleton_inj.mp heq.2).symm⟩
  · refine Or.inr ⟨rest, ?_⟩
    rw [List.concat_eq_append, ← List.cons_append, ← List.append_assoc] at h
    exact (List.append_inj' h rfl).1

/-- What stands before a name in a list without repetitions has a smaller place. -/
theorem mem_iff_idxOf_lt {names earlier later : List String} {name other : String}
    (hnodup : names.Nodup) (h : names = earlier ++ name :: later) :
    other ∈ earlier ↔ names.idxOf other < names.idxOf name := by
  subst h
  have hnot : name ∉ earlier := fun hin =>
    (List.nodup_append.mp hnodup).2.2 name hin name List.mem_cons_self rfl
  rw [List.idxOf_append_of_notMem hnot, List.idxOf_cons_self]
  constructor
  · intro hin
    rw [List.idxOf_append_of_mem hin]
    exact Nat.lt_of_lt_of_le (List.idxOf_lt_length_of_mem hin) (Nat.le_add_right _ _)
  · intro hlt
    by_contra hin
    rw [List.idxOf_append_of_notMem hin] at hlt
    omega

namespace Graph
variable {g : Graph}

/-- **The steps of a graph depend on each other**: `name` is a step that lists `other`. -/
def DependsOn (g : Graph) (name other : String) : Prop :=
  ∃ step ∈ g.steps, step.name = name ∧ other ∈ step.dependencies.toList

theorem DependsOn.mem_names {name other : String} (h : g.DependsOn name other) :
    name ∈ g.names := by
  obtain ⟨step, hstep, rfl, -⟩ := h
  exact name_mem_names hstep

/-- The number of dependencies of a step that are steps of the graph and not among these. -/
def waitingFor (g : Graph) (placed : List String) (step : Step) : Nat :=
  (step.dependencies.toList.filter fun d => g.contains d && !placed.contains d).length

theorem waitingFor_eq_zero_iff {placed : List String} {step : Step} :
    g.waitingFor placed step = 0 ↔
      ∀ d ∈ step.dependencies.toList, d ∈ g.names → d ∈ placed := by
  unfold waitingFor contains
  rw [List.length_eq_zero_iff, List.filter_eq_nil_iff]
  simp

/-- Placing a step counts for those that depend on it. -/
theorem waitingFor_concat {placed : List String} {name : String} {step : Step}
    (hname : name ∈ g.names) (hnew : name ∉ placed) :
    g.waitingFor (placed ++ [name]) step =
      if name ∈ step.dependencies.toList then g.waitingFor placed step - 1
      else g.waitingFor placed step := by
  have hfilter : (step.dependencies.toList.filter fun d =>
      g.contains d && !(placed ++ [name]).contains d) =
      (step.dependencies.toList.filter fun d => g.contains d && !placed.contains d).erase name := by
    rw [(step.dependencies.nodup.filter _).erase_eq_filter, List.filter_filter]
    apply List.filter_congr
    intro d _
    by_cases hd : d = name
    · simp [hd]
    · simp [hd]
  unfold waitingFor
  rw [hfilter]
  split
  · rename_i hmem
    refine List.length_erase_of_mem (List.mem_filter.mpr ⟨hmem, ?_⟩)
    simp [contains, hname, hnew]
  · rename_i hmem
    rw [List.erase_of_not_mem fun h => hmem (List.mem_filter.mp h).1]

theorem mem_dependents {name : String} {step : Step} (hstep : step ∈ g.steps) :
    step.name ∈ g.dependents name ↔ name ∈ step.dependencies.toList := by
  unfold dependents
  rw [List.mem_map]
  constructor
  · rintro ⟨other, hother, hname⟩
    obtain ⟨hother, hdep⟩ := List.mem_filter.mp hother
    obtain rfl := step_eq_of_name hother hstep hname
    exact NameSet.contains_iff.mp hdep
  · intro h
    exact ⟨step, List.mem_filter.mpr ⟨hstep, NameSet.contains_iff.mpr h⟩, rfl⟩

end Graph

/-- **The counters of a progress are exact**, and the steps are queued once and placed in order. -/
structure Progress.Exact (g : Graph) (p : Progress) : Prop where
  /-- Each step waits for its dependencies that are not placed. -/
  waiting_eq : p.waiting = g.steps.map fun step => (step.name, g.waitingFor p.placed step)
  /-- No step is queued or placed twice. -/
  nodup : (p.placed ++ p.queue).Nodup
  /-- Steps of the graph are queued and placed. -/
  mem_names : ∀ name ∈ p.placed ++ p.queue, name ∈ g.names
  /-- The steps that wait for nothing are those queued or placed. -/
  mem_iff : ∀ step ∈ g.steps,
    step.name ∈ p.placed ++ p.queue ↔ g.waitingFor p.placed step = 0
  /-- A step is placed after its dependencies. -/
  placed_after : ∀ step ∈ g.steps, ∀ earlier later, p.placed = earlier ++ step.name :: later →
    ∀ d ∈ step.dependencies.toList, d ∈ g.names → d ∈ earlier

namespace Progress.Exact
variable {g : Graph} {p : Progress}

theorem start (g : Graph) : Exact g g.start where
  waiting_eq := by
    apply List.map_congr_left
    intro step _
    simp [Graph.inDegree, Graph.waitingFor, Graph.start]
  nodup := g.names_nodup.sublist (List.filter_sublist.map _)
  mem_names name h := (List.filter_sublist.map _).subset h
  mem_iff step hstep := by
    have hcount : g.waitingFor [] step = g.inDegree step := by
      simp [Graph.inDegree, Graph.waitingFor]
    show step.name ∈ (g.steps.filter _).map Step.name ↔ g.waitingFor [] step = 0
    rw [hcount, List.mem_map]
    constructor
    · rintro ⟨other, hother, hname⟩
      obtain ⟨hother, hzero⟩ := List.mem_filter.mp hother
      obtain rfl := Graph.step_eq_of_name hother hstep hname
      exact eq_of_beq hzero
    · intro hzero
      exact ⟨step, List.mem_filter.mpr ⟨hstep, beq_iff_eq.mpr hzero⟩, rfl⟩
  placed_after step _ earlier later h := by cases earlier <;> cases h

theorem head_mem_names (hp : Exact g p) {name : String} {rest : List String}
    (hqueue : p.queue = name :: rest) : name ∈ g.names :=
  hp.mem_names name (by simp [hqueue])

/-- No more steps are queued and placed than there are. -/
theorem length_le (hp : Exact g p) : (p.placed ++ p.queue).length ≤ g.size :=
  Nat.le_trans (hp.nodup.length_le_of_subset hp.mem_names) (Nat.le_of_eq (List.length_map _))

/-- The step at the head of the queue is not placed. -/
theorem head_not_mem_placed (hp : Exact g p) {name : String} {rest : List String}
    (hqueue : p.queue = name :: rest) : name ∉ p.placed := fun h =>
  (List.nodup_append.mp hp.nodup).2.2 name h name (by simp [hqueue]) rfl

/-- The counters after a step is placed. -/
theorem countDown_eq (hp : Exact g p) {name : String} (hname : name ∈ g.names)
    (hnew : name ∉ p.placed) :
    g.countDown name p.waiting =
      g.steps.map fun step => (step.name, g.waitingFor (p.placed ++ [name]) step) := by
  unfold Graph.countDown
  rw [hp.waiting_eq, List.map_map]
  apply List.map_congr_left
  intro step hstep
  have hchild : (g.dependents name).contains step.name = true ↔
      name ∈ step.dependencies.toList := by
    rw [List.contains_iff_mem, Graph.mem_dependents hstep]
  simp only [Function.comp, hchild, Graph.waitingFor_concat hname hnew]

/-- The steps that join the queue: they depend on the step that was placed, and wait for nothing. -/
theorem mem_freed {placed : List String} {name : String} {waiting : Table Nat}
    (hwaiting : waiting = g.steps.map fun step => (step.name, g.waitingFor placed step))
    {freed : String} :
    freed ∈ g.freed name waiting ↔ ∃ step ∈ g.steps, step.name = freed ∧
      name ∈ step.dependencies.toList ∧ g.waitingFor placed step = 0 := by
  subst hwaiting
  unfold Graph.freed
  simp only [List.mem_map, List.mem_filter, Bool.and_eq_true, List.contains_iff_mem, beq_iff_eq]
  constructor
  · rintro ⟨_, ⟨⟨step, hstep, rfl⟩, hdep, hzero⟩, hname⟩
    exact ⟨step, hstep, hname, (Graph.mem_dependents hstep).mp hdep, hzero⟩
  · rintro ⟨step, hstep, hname, hdep, hzero⟩
    exact ⟨_, ⟨⟨step, hstep, rfl⟩, (Graph.mem_dependents hstep).mpr hdep, hzero⟩, hname⟩

theorem nodup_freed {placed : List String} {name : String} {waiting : Table Nat}
    (hwaiting : waiting = g.steps.map fun step => (step.name, g.waitingFor placed step)) :
    (g.freed name waiting).Nodup := by
  refine List.Nodup.sublist (List.filter_sublist.map Prod.fst) ?_
  rw [hwaiting, List.map_map]
  exact g.names_nodup

/-- **Placing a step keeps the counters exact.** -/
theorem place (hp : Exact g p) : Exact g (g.place p) := by
  unfold Graph.place
  cases hqueue : p.queue with
  | nil => exact hp
  | cons name rest =>
    have hall : name ∈ p.placed ++ p.queue := by simp [hqueue]
    have hname : name ∈ g.names := hp.head_mem_names hqueue
    have hnew : name ∉ p.placed := hp.head_not_mem_placed hqueue
    have hwaiting := hp.countDown_eq hname hnew
    -- a step that is freed has waited for `name`, so it was neither queued nor placed
    have hfresh : ∀ n ∈ g.freed name (g.countDown name p.waiting), n ∉ p.placed ++ p.queue := by
      intro n hn hold
      obtain ⟨step, hstep, rfl, hdep, -⟩ := (mem_freed hwaiting).mp hn
      have hzero := (hp.mem_iff step hstep).mp hold
      exact hnew (Graph.waitingFor_eq_zero_iff.mp hzero name hdep hname)
    have hperm : (p.placed ++ [name]) ++ (rest ++ g.freed name (g.countDown name p.waiting)) =
        (p.placed ++ p.queue) ++ g.freed name (g.countDown name p.waiting) := by
      simp [hqueue]
    refine ⟨hwaiting, ?_, ?_, ?_, ?_⟩
    · show ((p.placed ++ [name]) ++ (rest ++ _)).Nodup
      rw [hperm]
      refine List.nodup_append.mpr ⟨hp.nodup, nodup_freed hwaiting, ?_⟩
      rintro a ha b hb rfl
      exact hfresh a hb ha
    · show ∀ n ∈ (p.placed ++ [name]) ++ (rest ++ _), n ∈ g.names
      rw [hperm]
      intro n hn
      rcases List.mem_append.mp hn with hn | hn
      · exact hp.mem_names n hn
      · obtain ⟨step, hstep, rfl, -, -⟩ := (mem_freed hwaiting).mp hn
        exact Graph.name_mem_names hstep
    · intro step hstep
      show step.name ∈ (p.placed ++ [name]) ++ (rest ++ _) ↔
        g.waitingFor (p.placed ++ [name]) step = 0
      rw [hperm, List.mem_append, hp.mem_iff step hstep, mem_freed hwaiting,
        Graph.waitingFor_concat hname hnew]
      constructor
      · rintro (hzero | ⟨other, hother, heq, hdep, hzero⟩)
        · split <;> omega
        · obtain rfl := Graph.step_eq_of_name hother hstep heq
          rwa [Graph.waitingFor_concat hname hnew] at hzero
      · intro hzero
        by_cases hdep : name ∈ step.dependencies.toList
        · refine Or.inr ⟨step, hstep, rfl, hdep, ?_⟩
          rwa [Graph.waitingFor_concat hname hnew]
        · rw [if_neg hdep] at hzero
          exact Or.inl hzero
    · intro step hstep earlier later h d hd hin
      rcases split_concat h with ⟨rfl, heq⟩ | ⟨more, hsplit⟩
      · have hzero := (hp.mem_iff step hstep).mp (heq ▸ hall)
        exact Graph.waitingFor_eq_zero_iff.mp hzero d hd hin
      · exact hp.placed_after step hstep earlier more hsplit d hd hin

theorem progress (g : Graph) (k : Nat) : Exact g (g.progress k) := by
  induction k with
  | zero => exact start g
  | succ k ih => exact ih.place

end Progress.Exact

namespace Graph
variable {g : Graph}

/-! ## Missing steps -/

/-- **The first dependency that is no step**: the steps before this one depend on steps only, and so
does this one in what it lists before. -/
structure FirstMissing (g : Graph) (step : Step) (missing : String) : Prop where
  /-- The steps before depend on steps. -/
  first_step : ∃ earlier later, g.steps = earlier ++ step :: later ∧
    ∀ s ∈ earlier, ∀ d ∈ s.dependencies.toList, d ∈ g.names
  /-- The dependencies before are steps. -/
  first_dependency : ∃ earlier later, step.dependencies.toList = earlier ++ missing :: later ∧
    ∀ d ∈ earlier, d ∈ g.names
  /-- This one is none. -/
  not_mem_names : missing ∉ g.names

theorem find?_unknown_eq_none {dependencies : List String} :
    (dependencies.find? fun d => !g.contains d) = none ↔ ∀ d ∈ dependencies, d ∈ g.names := by
  rw [List.find?_eq_none]
  simp [contains]

theorem unknownDependency?_eq_none_iff :
    g.unknownDependency? = none ↔ ∀ name other, g.DependsOn name other → other ∈ g.names := by
  unfold unknownDependency?
  simp only [List.findSome?_eq_none_iff, Option.map_eq_none_iff, find?_unknown_eq_none]
  constructor
  · rintro h name other ⟨step, hstep, -, hmem⟩
    exact h step hstep other hmem
  · intro h step hstep other hmem
    exact h step.name other ⟨step, hstep, rfl, hmem⟩

theorem firstMissing_of_unknownDependency? {name missing : String}
    (h : g.unknownDependency? = some (name, missing)) :
    ∃ step, step.name = name ∧ g.FirstMissing step missing := by
  obtain ⟨earlier, step, later, hsplit, hfind, hearlier⟩ := List.findSome?_eq_some_iff.mp h
  obtain ⟨d, hd, heq⟩ := Option.map_eq_some_iff.mp hfind
  obtain ⟨rfl, rfl⟩ := Prod.mk.inj heq
  obtain ⟨hunknown, before, after, hlist, hbefore⟩ := List.find?_eq_some_iff_append.mp hd
  refine ⟨step, rfl, ⟨earlier, later, hsplit, fun s hs => ?_⟩, ⟨before, after, hlist, ?_⟩, ?_⟩
  · exact find?_unknown_eq_none.mp (Option.map_eq_none_iff.mp (hearlier s hs))
  · simpa [contains] using hbefore
  · simpa [contains] using hunknown

/-- **A graph that misses a step has no order**, and its first dependency on a missing one is why. -/
theorem orderError?_of_missing (h : ∃ name other, g.DependsOn name other ∧ other ∉ g.names) :
    ∃ step missing, g.FirstMissing step missing ∧
      g.orderError? = some (.unknownDependency step.name missing) := by
  obtain ⟨name, other, hdep, hother⟩ := h
  unfold orderError?
  cases hunknown : g.unknownDependency? with
  | none => exact absurd (unknownDependency?_eq_none_iff.mp hunknown name other hdep) hother
  | some found =>
    obtain ⟨step, hname, hfirst⟩ := firstMissing_of_unknownDependency? hunknown
    refine ⟨step, found.2, hfirst, ?_⟩
    rw [hname]

/-! ## A graph with an order -/

theorem unknownDependency?_eq_none (h : g.orderError? = none) : g.unknownDependency? = none := by
  unfold orderError? at h
  split at h
  · cases h
  · assumption

theorem cycleMembers_eq_nil (h : g.orderError? = none) : g.cycleMembers = [] := by
  unfold orderError? at h
  split at h
  · cases h
  · split at h
    · exact List.isEmpty_iff.mp (by assumption)
    · cases h

/-- In a graph with an order, steps depend on steps. -/
theorem mem_names_of_dependsOn (h : g.orderError? = none) {name other : String}
    (hdep : g.DependsOn name other) : other ∈ g.names :=
  unknownDependency?_eq_none_iff.mp (unknownDependency?_eq_none h) name other hdep

/-- In a graph with an order, every step is placed. -/
theorem mem_placed (h : g.orderError? = none) {name : String} (hname : name ∈ g.names) :
    name ∈ g.final.placed := by
  have hnil := cycleMembers_eq_nil h
  have hplaced := List.filter_eq_nil_iff.mp hnil name hname
  simpa using hplaced

/-- **The steps that a placed step depends on are placed before it.** -/
theorem placed_before {name other : String} (hname : name ∈ g.final.placed)
    (hdep : g.DependsOn name other) (hother : other ∈ g.names) :
    other ∈ g.final.placed ∧ g.final.placed.idxOf other < g.final.placed.idxOf name := by
  have hexact := Progress.Exact.progress g g.size
  obtain ⟨step, hstep, rfl, hmem⟩ := hdep
  obtain ⟨earlier, later, hsplit⟩ := List.append_of_mem hname
  have hearlier := hexact.placed_after step hstep earlier later hsplit other hmem hother
  refine ⟨hsplit ▸ List.mem_append_left _ hearlier, ?_⟩
  exact (mem_iff_idxOf_lt (List.nodup_append.mp hexact.nodup).1 hsplit).mp hearlier

/-- In a graph with an order, a step is placed after what it depends on. -/
theorem idxOf_placed_lt (h : g.orderError? = none) {name other : String}
    (hdep : g.DependsOn name other) :
    g.final.placed.idxOf other < g.final.placed.idxOf name :=
  (placed_before (mem_placed h hdep.mem_names) hdep (mem_names_of_dependsOn h hdep)).2

/-- **In a graph with an order, dependencies do not go on for ever**: their places go down. -/
theorem wellFounded_dependsOn (h : g.orderError? = none) :
    WellFounded fun other name => g.DependsOn name other := by
  refine Subrelation.wf ?_ (InvImage.wf (fun name => g.final.placed.idxOf name) Nat.lt_wfRel.wf)
  exact fun {other name} hdep => idxOf_placed_lt h hdep

end Graph

end Runbook.Plan
