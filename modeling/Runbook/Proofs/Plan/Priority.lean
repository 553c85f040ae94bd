import Mathlib.Data.Prod.Lex
import Runbook.Proofs.Plan.Topological
import Runbook.Proofs.Plan.Wave

/-!
# The order of execution is determined

A step is free from the place on at which the last of its dependencies stands, and from the start
if it has none; of the steps that get free at one place, the one declared first goes first
(`Graph.priority`).  The queue from which steps are placed keeps the steps in this order
(`Graph.byPriority_progress`), so the order of execution is a row that its own priorities sort
(`Graph.Ranked`).  There is at most one such row (`Graph.Ranked.unique`), which makes it the order
of execution of the graph, and a graph has one exactly if every dependency is a step and they do not
go round in a circle.
-/

namespace Runbook.Plan.Graph
variable {g : Graph} {row : List String} {name : String} {step : Step} {k : Nat}

/-! ## Priorities in a row -/

/-- The names that the step of a name depends on. -/
def dependenciesOf (g : Graph) (name : String) : List String :=
  ((g.find? name).map fun step => step.dependencies.toList).getD []

/-- **From where on a step is free** in a row: from the place after the one of its dependencies that
stands last; from the start if it has none. -/
def freeFrom (g : Graph) (row : List String) (name : String) : Nat :=
  ((g.dependenciesOf name).map row.idxOf).foldl (fun latest k => max latest (k + 1)) 0

/-- **The priority of a step** in a row: where it gets free, and then where it is declared. -/
def priority (g : Graph) (row : List String) (name : String) : Nat ×ₗ Nat :=
  toLex (g.freeFrom row name, g.names.idxOf name)

/-- **A row of all steps that its own priorities sort.** -/
structure Ranked (g : Graph) (row : List String) : Prop where
  /-- The row has every step of the graph once. -/
  perm : row.Perm g.names
  /-- A step comes after those that it depends on. -/
  after : ∀ name other, g.DependsOn name other → row.idxOf other < row.idxOf name
  /-- The steps come by priority. -/
  sorted : row.Pairwise fun a b => g.priority row a < g.priority row b

theorem dependenciesOf_name (hstep : step ∈ g.steps) :
    g.dependenciesOf step.name = step.dependencies.toList := by
  unfold dependenciesOf
  rw [find?_eq_some_iff.mpr ⟨hstep, rfl⟩]
  rfl

theorem dependsOn_iff {other : String} :
    g.DependsOn name other ↔ other ∈ g.dependenciesOf name := by
  unfold dependenciesOf
  constructor
  · rintro ⟨step, hstep, rfl, hdep⟩
    rw [find?_eq_some_iff.mpr ⟨hstep, rfl⟩]
    exact hdep
  · intro hdep
    cases hfind : g.find? name with
    | none =>
      rw [hfind] at hdep
      exact absurd hdep List.not_mem_nil
    | some step =>
      rw [hfind] at hdep
      obtain ⟨hstep, hname⟩ := find?_eq_some_iff.mp hfind
      exact ⟨step, hstep, hname, hdep⟩

theorem freeFrom_le_iff :
    g.freeFrom row name ≤ k ↔ ∀ other, g.DependsOn name other → row.idxOf other < k := by
  unfold freeFrom
  rw [foldl_deepest_le_iff]
  simp only [Nat.zero_le, true_and, List.forall_mem_map, dependsOn_iff]

/-- A priority goes by the places of the dependencies alone. -/
theorem priority_congr {other : List String}
    (h : ∀ d, g.DependsOn name d → row.idxOf d = other.idxOf d) :
    g.priority row name = g.priority other name := by
  have hplaces : (g.dependenciesOf name).map row.idxOf = (g.dependenciesOf name).map other.idxOf :=
    List.map_congr_left fun d hd => h d (dependsOn_iff.mpr hd)
  unfold priority freeFrom
  rw [hplaces]

/-! ## The queue keeps the priorities -/

/-- In a list without repetitions places go up. -/
theorem pairwise_idxOf {names : List String} (h : names.Nodup) :
    names.Pairwise fun a b => names.idxOf a < names.idxOf b := by
  rw [List.pairwise_iff_getElem]
  intro i j hi hj hij
  rwa [h.idxOf_getElem, h.idxOf_getElem]

/-- Steps that are free from the same place on, in order of declaration, come by priority. -/
theorem pairwise_priority_of_sublist {names : List String} (hsub : names.Sublist g.names)
    (hfree : ∀ name ∈ names, g.freeFrom row name = k) :
    names.Pairwise fun a b => g.priority row a < g.priority row b := by
  have hnodup : g.names.Nodup := g.names_nodup
  refine ((pairwise_idxOf hnodup).sublist hsub).imp_of_mem fun {a b} ha hb hlt => ?_
  rw [priority, priority, Prod.Lex.toLex_lt_toLex, hfree a ha, hfree b hb]
  exact Or.inr ⟨rfl, hlt⟩

/-- **The steps that are placed or queued come by priority.** -/
def ByPriority (g : Graph) (p : Progress) : Prop :=
  (p.placed ++ p.queue).Pairwise fun a b =>
    g.priority (p.placed ++ p.queue) a < g.priority (p.placed ++ p.queue) b

theorem placed_append_queue_place {p : Progress} {rest : List String}
    (hqueue : p.queue = name :: rest) :
    (g.place p).placed ++ (g.place p).queue =
      (p.placed ++ p.queue) ++ g.freed name (g.countDown name p.waiting) := by
  unfold place
  rw [hqueue]
  simp

section Known
variable (hknown : ∀ name other, g.DependsOn name other → other ∈ g.names) {p : Progress}
include hknown

/-- A step that is queued or placed depends on steps that are placed. -/
theorem mem_placed_of_dependsOn (hp : p.Exact g) {other : String}
    (hname : name ∈ p.placed ++ p.queue) (hdep : g.DependsOn name other) : other ∈ p.placed := by
  have hother := hknown name other hdep
  obtain ⟨step, hstep, rfl, hmem⟩ := hdep
  exact waitingFor_eq_zero_iff.mp ((hp.mem_iff step hstep).mp hname) other hmem hother

/-- A step that gets free when another one is placed is free from there on. -/
theorem freeFrom_of_mem_freed (hp : p.Exact g) {rest : List String}
    (hqueue : p.queue = name :: rest) {freed : String}
    (hfreed : freed ∈ g.freed name (g.countDown name p.waiting)) {later : List String} :
    g.freeFrom (p.placed ++ name :: later) freed = p.placed.length + 1 := by
  have hnew : name ∉ p.placed := hp.head_not_mem_placed hqueue
  obtain ⟨step, hstep, rfl, hdep, hzero⟩ :=
    (Progress.Exact.mem_freed (hp.countDown_eq (hp.head_mem_names hqueue) hnew)).mp hfreed
  have hplace : (p.placed ++ name :: later).idxOf name = p.placed.length := by
    rw [List.idxOf_append_of_notMem hnew, List.idxOf_cons_self, Nat.add_zero]
  apply le_antisymm
  · refine freeFrom_le_iff.mpr fun other hother => ?_
    have hmem : other ∈ p.placed ++ [name] := by
      have hin := hknown _ other hother
      rw [dependsOn_iff, dependenciesOf_name hstep] at hother
      exact waitingFor_eq_zero_iff.mp hzero other hother hin
    rcases List.mem_append.mp hmem with hin | hin
    · rw [List.idxOf_append_of_mem hin]
      exact Nat.lt_succ_of_lt (List.idxOf_lt_length_of_mem hin)
    · rw [List.mem_singleton.mp hin, hplace]
      exact Nat.lt_succ_self _
  · have hfree := freeFrom_le_iff.mp (le_refl (g.freeFrom (p.placed ++ name :: later) step.name))
    have hlt := hfree name ⟨step, hstep, rfl, hdep⟩
    rwa [hplace] at hlt

theorem byPriority_start : g.ByPriority g.start := by
  -- the steps that wait for nothing at the start have no dependencies
  refine pairwise_priority_of_sublist (k := 0) (List.filter_sublist.map _) fun name hname => ?_
  refine Nat.le_zero.mp (freeFrom_le_iff.mpr fun other hdep => ?_)
  exact absurd (mem_placed_of_dependsOn hknown (Progress.Exact.start g) hname hdep)
    List.not_mem_nil

/-- **Placing a step keeps the steps sorted by priority.** -/
theorem byPriority_place (hp : p.Exact g) (hsorted : g.ByPriority p) :
    g.ByPriority (g.place p) := by
  cases hqueue : p.queue with
  | nil =>
    have hsame : g.place p = p := by
      unfold place
      rw [hqueue]
    rwa [hsame]
  | cons name rest =>
    have hfreed : ∀ n ∈ g.freed name (g.countDown name p.waiting),
        g.freeFrom ((p.placed ++ p.queue) ++ g.freed name (g.countDown name p.waiting)) n =
          p.placed.length + 1 := by
      intro n hn
      rw [hqueue, List.append_assoc, List.cons_append]
      exact freeFrom_of_mem_freed hknown hp hqueue hn
    -- what was placed or queued before gets free at places before that of `name`
    have hplace : ∀ n ∈ p.placed ++ p.queue, ∀ d, g.DependsOn n d → ∀ more : List String,
        ((p.placed ++ p.queue) ++ more).idxOf d = p.placed.idxOf d := by
      intro n hn d hdep more
      have hin := mem_placed_of_dependsOn hknown hp hn hdep
      rw [List.idxOf_append_of_mem (List.mem_append_left _ hin), List.idxOf_append_of_mem hin]
    have hsub : (g.freed name (g.countDown name p.waiting)).Sublist g.names := by
      have hkeys : (g.countDown name p.waiting).map Prod.fst = g.names := by
        rw [hp.countDown_eq (hp.head_mem_names hqueue) (hp.head_not_mem_placed hqueue),
          List.map_map]
        rfl
      exact hkeys ▸ List.filter_sublist.map Prod.fst
    unfold ByPriority
    rw [placed_append_queue_place hqueue, List.pairwise_append]
    refine ⟨?_, pairwise_priority_of_sublist hsub hfreed, ?_⟩
    · refine List.Pairwise.imp_of_mem (fun {a b} ha hb hlt => ?_) hsorted
      have hsame : ∀ n ∈ p.placed ++ p.queue,
          g.priority (p.placed ++ p.queue) n =
            g.priority ((p.placed ++ p.queue) ++ g.freed name (g.countDown name p.waiting)) n := by
        intro n hn
        refine priority_congr fun d hdep => ?_
        have hshort := hplace n hn d hdep []
        rw [List.append_nil] at hshort
        rw [hshort, hplace n hn d hdep]
      rwa [← hsame a ha, ← hsame b hb]
    · intro a ha b hb
      rw [priority, priority, Prod.Lex.toLex_lt_toLex, hfreed b hb]
      refine Or.inl (Nat.lt_succ_of_le (freeFrom_le_iff.mpr fun d hdep => ?_))
      rw [hplace a ha d hdep]
      exact List.idxOf_lt_length_of_mem (mem_placed_of_dependsOn hknown hp ha hdep)

theorem byPriority_progress (k : Nat) : g.ByPriority (g.progress k) := by
  induction k with
  | zero => exact byPriority_start hknown
  | succ k ih => exact byPriority_place hknown (Progress.Exact.progress g k) ih

end Known

/-! ## There is one such row -/

namespace Ranked
variable {other : List String}

theorem topological (h : g.Ranked row) : g.Topological row :=
  ⟨h.perm, h.after⟩

/-- A step goes before those that come after it. -/
theorem priority_lt (h : g.Ranked row) {earlier later : List String} {a b : String}
    (hsplit : row = earlier ++ a :: later) (hb : b ∈ g.names) (hnot : b ∉ earlier) (hne : b ≠ a) :
    g.priority row a < g.priority row b := by
  have hmem : b ∈ earlier ++ a :: later := hsplit ▸ h.perm.mem_iff.mpr hb
  have hlater : b ∈ later :=
    (List.mem_cons.mp ((List.mem_append.mp hmem).resolve_left hnot)).resolve_left hne
  have hsorted := h.sorted
  conv at hsorted => arg 2; rw [hsplit]
  exact (List.pairwise_cons.mp (List.pairwise_append.mp hsorted).2.1).1 b hlater

/-- Where two such rows part, neither step can go first. -/
theorem eq_of_split (h : g.Ranked row) (h' : g.Ranked other) {earlier later later' : List String}
    {a b : String} (hsplit : row = earlier ++ a :: later)
    (hsplit' : other = earlier ++ b :: later') : a = b := by
  by_contra hne
  have hplace : ∀ d ∈ earlier, row.idxOf d = other.idxOf d := by
    intro d hd
    rw [hsplit, hsplit', List.idxOf_append_of_mem hd, List.idxOf_append_of_mem hd]
  have ha : a ∈ g.names := h.perm.mem_iff.mp (by simp [hsplit])
  have hb : b ∈ g.names := h'.perm.mem_iff.mp (by simp [hsplit'])
  -- both depend on steps of the common part only, so their priorities are the same in both rows
  have hsame : g.priority row a = g.priority other a :=
    priority_congr fun d hdep => hplace d (h.topological.mem_of_dependsOn hsplit hdep)
  have hsame' : g.priority row b = g.priority other b :=
    priority_congr fun d hdep => hplace d (h'.topological.mem_of_dependsOn hsplit' hdep)
  have hlt := h.priority_lt hsplit hb (h'.topological.not_mem_of_split hsplit') (Ne.symm hne)
  have hlt' := h'.priority_lt hsplit' ha (h.topological.not_mem_of_split hsplit) hne
  rw [← hsame, ← hsame'] at hlt'
  exact lt_asymm hlt hlt'

/-- **A graph has one row at most that its own priorities sort.** -/
theorem unique (h : g.Ranked row) (h' : g.Ranked other) : row = other := by
  have hlength : row.length = other.length := (h.perm.trans h'.perm.symm).length_eq
  -- going along both rows, the rest after a common part begins with the same step
  have hrest : ∀ rest rest' earlier : List String, row = earlier ++ rest →
      other = earlier ++ rest' → rest.length = rest'.length → rest = rest' := by
    intro rest
    induction rest with
    | nil =>
      intro rest' _ _ _ hlen
      exact (List.eq_nil_of_length_eq_zero hlen.symm).symm
    | cons a later ih =>
      intro rest' earlier hsplit hsplit' hlen
      cases rest' with
      | nil => cases hlen
      | cons b later' =>
        obtain rfl := h.eq_of_split h' hsplit hsplit'
        refine congrArg (a :: ·) (ih later' (earlier ++ [a]) ?_ ?_ (Nat.succ.inj hlen))
        · rw [hsplit, List.append_assoc, List.singleton_append]
        · rw [hsplit', List.append_assoc, List.singleton_append]
  exact hrest row other [] rfl rfl hlength

theorem mem_names_of_dependsOn (h : g.Ranked row) {d : String} (hdep : g.DependsOn name d) :
    d ∈ g.names := by
  have hlt := Nat.lt_of_lt_of_le (h.after name d hdep) List.idxOf_le_length
  exact h.perm.mem_iff.mp (List.idxOf_lt_length_iff.mp hlt)

theorem acyclic (h : g.Ranked row) : g.Acyclic := by
  have hafter : ∀ {name other}, Relation.TransGen g.DependsOn name other →
      row.idxOf other < row.idxOf name := by
    intro name other hpath
    induction hpath with
    | single hdep => exact h.after _ _ hdep
    | tail _ hdep ih => exact lt_trans (h.after _ _ hdep) ih
  exact fun name hcycle => lt_irrefl _ (hafter hcycle)

end Ranked

/-! ## The order of execution -/

theorem order_eq_ok_iff : g.order = .ok row ↔ g.orderError? = none ∧ g.final.placed = row := by
  unfold order
  cases g.orderError? with
  | none => simp
  | some e => simp

theorem orderError?_eq_none_iff :
    g.orderError? = none ↔
      (∀ name other, g.DependsOn name other → other ∈ g.names) ∧ g.Acyclic := by
  constructor
  · intro h
    exact ⟨fun _ _ hdep => mem_names_of_dependsOn h hdep, acyclic_of_orderError?_eq_none h⟩
  · rintro ⟨hknown, hacyclic⟩
    exact orderError?_eq_none hknown hacyclic.cycleMembers_eq_nil

theorem ranked_placed (h : g.orderError? = none) : g.Ranked g.final.placed where
  perm := by
    have hsorted := sorted_placed h
    refine (List.perm_ext_iff_of_nodup hsorted.nodup g.names_nodup).mpr fun name => ?_
    exact ⟨hsorted.mem_names name, mem_placed h⟩
  after _ _ hdep := idxOf_placed_lt h hdep
  sorted := by
    have hsorted : g.ByPriority g.final :=
      byPriority_progress (orderError?_eq_none_iff.mp h).1 g.size
    rwa [ByPriority, queue_final, List.append_nil] at hsorted

/-- **The order of execution is a topological order, and determined.**  A graph has one exactly if
every dependency is a step of the graph and dependencies do not go round in a circle; and a row is
the order of a graph exactly if it has every step once, each after those that it depends on, and
sorted by priority: by the place after the latest of its dependencies, and then by declaration. -/
theorem order_eq_ok_iff_ranked (g : Graph) :
    ((∃ row, g.order = .ok row) ↔
      (∀ name other, g.DependsOn name other → other ∈ g.names) ∧ g.Acyclic) ∧
    ∀ row, g.order = .ok row ↔ g.Ranked row := by
  constructor
  · simp only [order_eq_ok_iff, ← orderError?_eq_none_iff, exists_and_left, exists_eq', and_true]
  · intro row
    rw [order_eq_ok_iff]
    constructor
    · rintro ⟨hnone, rfl⟩
      exact ranked_placed hnone
    · intro hrow
      have hnone := orderError?_eq_none_iff.mpr
        ⟨fun _ _ hdep => hrow.mem_names_of_dependsOn hdep, hrow.acyclic⟩
      exact ⟨hnone, (ranked_placed hnone).unique hrow⟩

end Runbook.Plan.Graph
