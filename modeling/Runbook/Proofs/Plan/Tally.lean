import Runbook.Proofs.Plan.Chain
import Runbook.Proofs.Plan.Cycle
import Runbook.Proofs.Plan.Priority

/-!
# Counting dependencies one at a time

The counters of the steps and the lists of their dependents can be filled one dependency after
another (`Graph.tally`), and a pass that places a step can take one off the counter of each of its
dependents in turn, where there is nothing to take off a counter at zero (`release?`,
`Graph.pass?`).  What keeps the two in step is that dependencies are sets: a step stands in the list
of a dependency as often as it was counted for it, which is once.

So the passes come to what placing steps all at once comes to (`Graph.Passes.eq_progress`): the
counters are exact before every pass, none goes below zero, no step is queued twice, and there are no
more passes than steps.  Nothing is assumed of the graph: a step may depend on itself, on a step of
its circle, or on a name that is no step.
-/

namespace Runbook

/-! ## Tables over a list of names -/

/-- The table that gives each of these names its value under a function. -/
def Table.tabulate {α : Type} (names : List String) (f : String → α) : Table α :=
  names.map fun name => (name, f name)

namespace Table
variable {α : Type} {names : List String} {f g : String → α} {name : String}

theorem keys_tabulate : (tabulate names f).keys = names := by
  unfold keys tabulate
  rw [List.map_map]
  exact List.map_id' names

theorem contains_tabulate : (tabulate names f).contains name = true ↔ name ∈ names := by
  rw [contains_iff, keys_tabulate]

theorem tabulate_congr (h : ∀ name ∈ names, f name = g name) :
    tabulate names f = tabulate names g :=
  List.map_congr_left fun name hname => by rw [h name hname]

theorem get?_tabulate (h : name ∈ names) : (tabulate names f).get? name = some (f name) := by
  induction names with
  | nil => exact absurd h List.not_mem_nil
  | cons first rest ih =>
    show (if first = name then some (f first) else (tabulate rest f).get? name) = some (f name)
    split
    · rename_i heq
      rw [heq]
    · rename_i hne
      exact ih (List.mem_of_ne_of_mem (Ne.symm hne) h)

theorem modify_tabulate (name : String) (change : α → α) :
    (tabulate names f).modify name change =
      tabulate names fun n => if n = name then change (f n) else f n := by
  unfold modify tabulate
  rw [List.map_map]
  refine List.map_congr_left fun n _ => ?_
  by_cases h : n = name
  · simp [h]
  · simp [h]

end Table

namespace Plan

/-! ## Filling the counters -/

/-- **What is counted of a graph.** -/
structure Tally where
  /-- How many dependencies of each step were counted. -/
  waiting : Table Nat
  /-- The steps that were found to depend on each step. -/
  dependents : Table (List String)

namespace Tally

/-- The tally that gives each of these names its values under two functions. -/
def tabulate (names : List String) (count : String → Nat) (found : String → List String) :
    Tally :=
  ⟨.tabulate names count, .tabulate names found⟩

/-- **Counts a dependency of the step `name`**, if it is a step as well. -/
def count (name : String) (t : Tally) (dependency : String) : Tally :=
  if t.dependents.contains dependency then
    ⟨t.waiting.modify name (· + 1), t.dependents.modify dependency (· ++ [name])⟩
  else t

/-- Counts the dependencies of a step, in order. -/
def countStep (t : Tally) (step : Step) : Tally :=
  step.dependencies.toList.foldl (count step.name) t

/-- The state in which the passes begin: the steps at zero are queued. -/
def start (t : Tally) : Progress where
  waiting := t.waiting
  queue := (t.waiting.filter fun e => e.2 == 0).map Prod.fst
  placed := []

end Tally

/-- **The tally of a graph**, filled step by step. -/
def Graph.tally (g : Graph) : Tally :=
  g.steps.foldl Tally.countStep (.tabulate g.names (fun _ => 0) fun _ => [])

namespace Tally
variable {names : List String} {counts : String → Nat} {found : String → List String}

theorem tabulate_congr {counts' : String → Nat} {found' : String → List String}
    (hcounts : ∀ n ∈ names, counts n = counts' n) (hfound : ∀ n ∈ names, found n = found' n) :
    tabulate names counts found = tabulate names counts' found' := by
  unfold tabulate
  rw [Table.tabulate_congr hcounts, Table.tabulate_congr hfound]

theorem count_of_mem (name : String) {dependency : String} (h : dependency ∈ names) :
    (tabulate names counts found).count name dependency =
      tabulate names (fun n => if n = name then counts n + 1 else counts n)
        fun n => if n = dependency then found n ++ [name] else found n := by
  unfold count tabulate
  rw [if_pos (Table.contains_tabulate.mpr h), Table.modify_tabulate, Table.modify_tabulate]

theorem count_of_not_mem (name : String) {dependency : String} (h : dependency ∉ names) :
    (tabulate names counts found).count name dependency = tabulate names counts found :=
  if_neg (mt Table.contains_tabulate.mp h)

/-- The dependencies of a step are counted for it, and it is listed once for each. -/
theorem foldl_count (name : String) {dependencies : List String} (hnodup : dependencies.Nodup) :
    dependencies.foldl (count name) (tabulate names counts found) =
      tabulate names
        (fun n => if n = name then counts n + (dependencies.filter fun d => names.contains d).length
          else counts n)
        fun n => if n ∈ dependencies then found n ++ [name] else found n := by
  induction dependencies generalizing counts found with
  | nil => exact tabulate_congr (fun n _ => by simp) (fun n _ => by simp)
  | cons d rest ih =>
    obtain ⟨hnot, hrest⟩ := List.nodup_cons.mp hnodup
    rw [List.foldl_cons]
    by_cases hd : d ∈ names
    · rw [count_of_mem name hd, ih hrest]
      refine tabulate_congr (fun n _ => ?_) fun n _ => ?_
      · rw [List.filter_cons, if_pos (List.contains_iff_mem.mpr hd), List.length_cons]
        split
        · omega
        · rfl
      · by_cases hn : n = d
        · subst hn
          simp [hnot]
        · simp [hn]
    · rw [count_of_not_mem name hd, ih hrest]
      refine tabulate_congr (fun n _ => ?_) fun n hn => ?_
      · rw [List.filter_cons, if_neg fun h => hd (List.contains_iff_mem.mp h)]
      · have hne : n ≠ d := fun h => hd (h ▸ hn)
        simp [hne]

/-- Every step is counted for itself, and listed for its dependencies in order of declaration. -/
theorem foldl_countStep {steps : List Step} (hnodup : (steps.map Step.name).Nodup) :
    steps.foldl countStep (tabulate names counts found) =
      tabulate names
        (fun n => counts n + ((steps.find? fun s => s.name == n).elim 0 fun s =>
          (s.dependencies.toList.filter fun d => names.contains d).length))
        fun n => found n ++ (steps.filter fun s => s.dependencies.contains n).map Step.name := by
  induction steps generalizing counts found with
  | nil => exact tabulate_congr (fun n _ => rfl) (fun n _ => (List.append_nil _).symm)
  | cons step rest ih =>
    obtain ⟨hnot, hrest⟩ := List.nodup_cons.mp hnodup
    rw [List.foldl_cons, countStep, foldl_count step.name step.dependencies.nodup, ih hrest]
    refine tabulate_congr (fun n _ => ?_) fun n _ => ?_
    · by_cases hn : step.name = n
      · -- no later step has the name, so nothing more is counted for it
        subst hn
        have hnone : (rest.find? fun s => s.name == step.name) = none :=
          List.find?_eq_none.mpr fun s hs heq => hnot (eq_of_beq heq ▸ List.mem_map_of_mem hs)
        rw [hnone, List.find?_cons, beq_self_eq_true, if_pos rfl]
        rfl
      · rw [List.find?_cons, beq_false_of_ne hn, if_neg (Ne.symm hn)]
    · by_cases hn : n ∈ step.dependencies.toList
      · rw [List.filter_cons, if_pos (NameSet.contains_iff.mpr hn), if_pos hn, List.append_assoc]
        rfl
      · rw [List.filter_cons, if_neg fun h => hn (NameSet.contains_iff.mp h), if_neg hn]

end Tally

/-! ## Passes -/

/-- **Takes one off the counter of a step**, and notes the step if it waits for nothing more.  There
is nothing to take off a counter at zero. -/
def release? (state : Table Nat × List String) (name : String) :
    Option (Table Nat × List String) :=
  match state.1.get? name with
  | none => some state
  | some 0 => none
  | some (k + 1) =>
    some (state.1.modify name (· - 1), if k = 0 then state.2 ++ [name] else state.2)

namespace Graph
variable {g : Graph}

/-- **One pass**: the step at the head of the queue is placed, one is taken off the counter of each of
its dependents in turn, and those that wait for nothing more join the queue in order of declaration.
There is no pass if the queue is empty, or if a counter is at zero already. -/
def pass? (g : Graph) (p : Progress) : Option Progress :=
  match p.queue with
  | [] => none
  | name :: rest => do
    let dependents := (g.tally.dependents.get? name).getD []
    let (waiting, ready) ← dependents.foldlM release? (p.waiting, [])
    let joining := ready.mergeSort fun a b => decide (g.names.idxOf a ≤ g.names.idxOf b)
    return { waiting, queue := rest ++ joining, placed := p.placed ++ [name] }

/-- **After so many passes**, the placing of steps stands here. -/
inductive Passes (g : Graph) : Nat → Progress → Prop
  | start : Passes g 0 g.tally.start
  | pass {n : Nat} {p next : Progress} (h : Passes g n p) (hpass : g.pass? p = some next) :
      Passes g (n + 1) next

theorem tally_eq (g : Graph) : g.tally = ⟨g.start.waiting, .tabulate g.names g.dependents⟩ := by
  unfold tally
  rw [Tally.foldl_countStep g.names_nodup]
  unfold Tally.tabulate
  congr 1
  · show List.map _ (g.steps.map Step.name) = g.steps.map _
    rw [List.map_map]
    refine List.map_congr_left fun step hstep => ?_
    have hfind : (g.steps.find? fun s => s.name == step.name) = some step :=
      find?_eq_some_iff.mpr ⟨hstep, rfl⟩
    show (step.name, 0 + _) = (step.name, g.inDegree step)
    rw [hfind, Nat.zero_add]
    rfl

theorem start_tally (g : Graph) : g.tally.start = g.start := by
  rw [tally_eq]
  unfold Tally.start start
  congr 1
  show List.map Prod.fst (List.filter _ (g.steps.map _)) = _
  rw [List.filter_map, List.map_map]
  rfl

/-! ### Taking one off each counter -/

/-- **One is taken off the counter of each of these names**, which are all above zero. -/
theorem foldlM_release? (ready : List String) {names children : List String} {f : String → Nat}
    (hnodup : children.Nodup) (hnames : ∀ c ∈ children, c ∈ names)
    (hpos : ∀ c ∈ children, f c ≠ 0) :
    children.foldlM release? (Table.tabulate names f, ready) =
      some (Table.tabulate names fun n => if n ∈ children then f n - 1 else f n,
        ready ++ children.filter fun c => f c - 1 == 0) := by
  induction children generalizing f ready with
  | nil => simp
  | cons child rest ih =>
    obtain ⟨hnot, hrest⟩ := List.nodup_cons.mp hnodup
    obtain ⟨k, hk⟩ := Nat.exists_eq_succ_of_ne_zero (hpos child List.mem_cons_self)
    have hrelease : release? (Table.tabulate names f, ready) child =
        some (Table.tabulate names fun n => if n = child then f n - 1 else f n,
          if k = 0 then ready ++ [child] else ready) := by
      unfold release?
      rw [Table.get?_tabulate (hnames child List.mem_cons_self), hk]
      dsimp only
      rw [Table.modify_tabulate]
    have hne : ∀ c ∈ rest, c ≠ child := fun c hc h => hnot (h ▸ hc)
    have hlater : ∀ c ∈ rest, (if c = child then f c - 1 else f c) = f c :=
      fun c hc => if_neg (hne c hc)
    rw [List.foldlM_cons, hrelease]
    show rest.foldlM release? _ = _
    rw [ih _ hrest (fun c hc => hnames c (List.mem_cons_of_mem _ hc)) fun c hc => by
      rw [hlater c hc]
      exact hpos c (List.mem_cons_of_mem _ hc)]
    congr 2
    · refine Table.tabulate_congr fun n _ => ?_
      by_cases hn : n = child
      · subst hn
        simp [hnot]
      · simp [hn]
    · rw [List.filter_congr fun c hc => by rw [hlater c hc], List.filter_cons, hk]
      by_cases hzero : k = 0
      · simp [hzero]
      · simp [hzero]

/-! ### The passes place the steps -/

section Dependents
variable {name : String} {f : String → Nat}

/-- A table that goes by the steps goes by their names. -/
theorem tabulate_names (value : Step → Nat) :
    g.steps.map (fun step => (step.name, value step)) =
      Table.tabulate g.names fun name => (g.find? name).elim 0 value := by
  unfold Table.tabulate names
  rw [List.map_map]
  refine List.map_congr_left fun step hstep => ?_
  have hfind : g.find? step.name = some step := find?_eq_some_iff.mpr ⟨hstep, rfl⟩
  simp only [Function.comp, hfind, Option.elim]

/-- The dependents of a step stand in the order of declaration. -/
theorem filter_dependents (keep : String → Bool) :
    (g.dependents name).filter keep =
      g.names.filter fun n => (g.dependents name).contains n && keep n := by
  unfold names
  rw [List.filter_map]
  conv => lhs; unfold dependents
  rw [List.filter_map, List.filter_filter]
  refine congrArg _ (List.filter_congr fun step hstep => ?_)
  have hlisted : (g.dependents name).contains step.name = step.dependencies.contains name := by
    rw [Bool.eq_iff_iff, List.contains_iff_mem, NameSet.contains_iff]
    exact mem_dependents hstep
  rw [Function.comp, Function.comp, hlisted, Bool.and_comm]

theorem countDown_tabulate : g.countDown name (Table.tabulate g.names f) =
    Table.tabulate g.names fun n => if n ∈ g.dependents name then f n - 1 else f n := by
  unfold countDown Table.tabulate
  rw [List.map_map]
  refine List.map_congr_left fun n _ => ?_
  simp only [Function.comp, List.contains_iff_mem]

theorem freed_tabulate : g.freed name (Table.tabulate g.names f) =
    g.names.filter fun n => (g.dependents name).contains n && f n == 0 := by
  unfold freed Table.tabulate
  dsimp only
  rw [List.filter_map, List.map_map]
  exact List.map_id' _

/-- The steps whose counters come to zero one at a time are those that are freed. -/
theorem filter_dependents_eq_freed : ((g.dependents name).filter fun n => f n - 1 == 0) =
    g.freed name (g.countDown name (Table.tabulate g.names f)) := by
  rw [filter_dependents, countDown_tabulate, freed_tabulate]
  refine List.filter_congr fun n _ => ?_
  by_cases hn : n ∈ g.dependents name
  · rw [if_pos hn]
  · rw [Bool.eq_false_iff.mpr fun h => hn (List.contains_iff_mem.mp h), Bool.false_and,
      Bool.false_and]

/-- Steps that are freed are in the order in which they join the queue. -/
theorem mergeSort_freed (waiting : String → Nat) :
    (g.freed name (Table.tabulate g.names waiting)).mergeSort
      (fun a b => decide (g.names.idxOf a ≤ g.names.idxOf b)) =
      g.freed name (Table.tabulate g.names waiting) := by
  refine List.mergeSort_of_pairwise ?_
  rw [freed_tabulate]
  refine ((pairwise_idxOf g.names_nodup).sublist List.filter_sublist).imp fun h => ?_
  exact decide_eq_true (Nat.le_of_lt h)

end Dependents

/-- A step that depends on one that is not placed waits. -/
theorem waitingFor_ne_zero {placed : List String} {name : String} (hname : name ∈ g.names)
    (hnew : name ∉ placed) {step : Step} (hdep : name ∈ step.dependencies.toList) :
    g.waitingFor placed step ≠ 0 := fun hzero =>
  hnew (waitingFor_eq_zero_iff.mp hzero name hdep hname)

/-- **A pass places the step at the head of the queue**: none of the counters that it lowers is at
zero, for its dependents have waited for that step. -/
theorem pass?_eq_place {p : Progress} (hp : p.Exact g) {name : String} {rest : List String}
    (hqueue : p.queue = name :: rest) : g.pass? p = some (g.place p) := by
  have hname := hp.head_mem_names hqueue
  have hnew := hp.head_not_mem_placed hqueue
  have hsub : (g.dependents name).Sublist g.names := List.filter_sublist.map _
  have hlist : (g.tally.dependents.get? name).getD [] = g.dependents name := by
    rw [tally_eq, Table.get?_tabulate hname]
    rfl
  have hpos : ∀ child ∈ g.dependents name,
      (g.find? child).elim 0 (g.waitingFor p.placed) ≠ 0 := by
    intro child hchild
    obtain ⟨step, hstep, rfl⟩ := mem_names.mp (hsub.subset hchild)
    rw [find?_eq_some_iff.mpr ⟨hstep, rfl⟩]
    exact waitingFor_ne_zero hname hnew ((mem_dependents hstep).mp hchild)
  have hreleased := foldlM_release? [] (g.names_nodup.sublist hsub)
    (fun child hchild => hsub.subset hchild) hpos
  unfold pass? place
  rw [hqueue, hp.waiting_eq, tabulate_names]
  dsimp only
  rw [hlist, hreleased, List.nil_append, filter_dependents_eq_freed, countDown_tabulate]
  show some (Progress.mk _ (rest ++ List.mergeSort _ _) _) = _
  rw [mergeSort_freed]

/-- **After `n` passes, `n` steps are placed**, as they are when dependents are counted down at once. -/
theorem Passes.eq_progress {n : Nat} {p : Progress} (h : g.Passes n p) :
    p = g.progress n ∧ p.placed.length = n := by
  induction h with
  | start => exact ⟨start_tally g, by rw [start_tally]; rfl⟩
  | @pass n p next _ hpass ih =>
    obtain ⟨rfl, hlength⟩ := ih
    cases hqueue : (g.progress n).queue with
    | nil =>
      unfold pass? at hpass
      rw [hqueue] at hpass
      cases hpass
    | cons name rest =>
      rw [pass?_eq_place (Progress.Exact.progress g n) hqueue] at hpass
      cases hpass
      refine ⟨rfl, ?_⟩
      unfold place
      rw [hqueue]
      show ((g.progress n).placed ++ [name]).length = n + 1
      rw [List.length_append, hlength]
      rfl

/-- The passes reach every state of the placing of steps. -/
theorem exists_passes (g : Graph) (k : Nat) : ∃ n ≤ k, g.Passes n (g.progress k) := by
  induction k with
  | zero =>
    have hstart : g.Passes 0 g.tally.start := .start
    rw [start_tally] at hstart
    exact ⟨0, Nat.le_refl 0, hstart⟩
  | succ k ih =>
    obtain ⟨n, hn, hpasses⟩ := ih
    show ∃ n ≤ k + 1, g.Passes n (g.place (g.progress k))
    cases hqueue : (g.progress k).queue with
    | nil =>
      -- nothing is left to place, so the state stays as it is
      have hstays : g.place (g.progress k) = g.progress k := by
        unfold place
        rw [hqueue]
      rw [hstays]
      exact ⟨n, Nat.le_succ_of_le hn, hpasses⟩
    | cons name rest =>
      have hpass := pass?_eq_place (Progress.Exact.progress g k) hqueue
      exact ⟨n + 1, Nat.succ_le_succ hn, .pass hpasses hpass⟩

end Graph

/-- **How the placing of steps stands after `n` passes.** -/
structure Progress.Counted (g : Graph) (n : Nat) (p : Progress) : Prop where
  /-- The counter of a step is at the number of its dependencies that are steps and not placed. -/
  counter_eq : ∀ step ∈ g.steps, p.waiting.get? step.name = some (g.waitingFor p.placed step)
  /-- No step was queued twice; those that are placed were queued before those that are not. -/
  queued_once : (p.placed ++ p.queue).Nodup
  /-- Each pass placed one step. -/
  length_placed : p.placed.length = n
  /-- There were no more passes than there are steps. -/
  le_size : n ≤ g.size
  /-- While a step is queued there is a next pass, in which no counter goes below zero; what was queued
  stays queued or is placed. -/
  goes_on : p.queue ≠ [] → ∃ next joining, g.pass? p = some next ∧
    next.placed ++ next.queue = (p.placed ++ p.queue) ++ joining

theorem Graph.Passes.counted {g : Graph} {n : Nat} {p : Progress} (h : g.Passes n p) :
    p.Counted g n := by
  obtain ⟨rfl, hlength⟩ := h.eq_progress
  have hexact := Progress.Exact.progress g n
  refine ⟨fun step hstep => ?_, hexact.nodup, hlength, ?_, fun hne => ?_⟩
  · have hkeys : (g.progress n).waiting.keys.Nodup := by
      rw [hexact.waiting_eq, Graph.tabulate_names, Table.keys_tabulate]
      exact g.names_nodup
    rw [Table.get?_eq_some_iff hkeys, hexact.waiting_eq]
    exact List.mem_map_of_mem hstep
  · have hle := hexact.length_le
    rw [List.length_append] at hle
    omega
  · obtain ⟨name, rest, hqueue⟩ := List.exists_cons_of_ne_nil hne
    exact ⟨_, _, Graph.pass?_eq_place hexact hqueue, Graph.placed_append_queue_place hqueue⟩

/-- **The counters are exact before every pass**, whatever the graph is: they are the numbers of
dependencies that are not placed, none of them goes below zero, no step is queued twice, and there are
at most as many passes as steps.  The last of them leaves what the order and the cycles of the graph
are read off. -/
theorem Graph.counters_are_exact (g : Graph) :
    (∀ n p, g.Passes n p → p.Counted g n ∧ p = g.progress n) ∧
      ∃ n ≤ g.size, g.Passes n g.final ∧ g.final.queue = [] := by
  refine ⟨fun n p h => ⟨h.counted, h.eq_progress.1⟩, ?_⟩
  obtain ⟨n, hn, hpasses⟩ := g.exists_passes g.size
  exact ⟨n, hn, hpasses, g.queue_final⟩

/-- A step that depends on itself, two steps that depend on each other, and one that depends on a name
that is no step. -/
def tangled : Graph :=
  .ofSteps [Graph.bareStep "a" ["a"], Graph.bareStep "b" ["c", "e"], Graph.bareStep "c" ["b"],
    Graph.bareStep "d" ["ghost", "e"], Graph.bareStep "e" []]

theorem counters_are_exact_of_tangled :
    ∃ p, tangled.Passes 2 p ∧ p.Counted tangled 2 ∧ p.placed = ["e", "d"] ∧ p.queue = [] ∧
      p.waiting = [("a", 1), ("b", 1), ("c", 1), ("d", 0), ("e", 0)] := by
  have hstart : tangled.Passes 0 (tangled.progress 0) := by
    have h : tangled.Passes 0 tangled.tally.start := .start
    rwa [Graph.start_tally] at h
  have hfirst : (tangled.progress 0).queue = ["e"] := by decide +kernel
  have hsecond : (tangled.progress 1).queue = ["d"] := by decide +kernel
  have hpasses : tangled.Passes 2 (tangled.progress 2) :=
    .pass (.pass hstart (Graph.pass?_eq_place (.progress tangled 0) hfirst))
      (Graph.pass?_eq_place (.progress tangled 1) hsecond)
  refine ⟨_, hpasses, (tangled.counters_are_exact.1 2 _ hpasses).1, ?_, ?_, ?_⟩ <;> decide +kernel

end Plan

end Runbook
