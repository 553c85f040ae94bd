import Mathlib.Order.Bounds.Basic
import Runbook.Proofs.Plan.Priority

/-!
# Chains of dependencies

The depth of a step is the length of the longest chain of dependencies that starts at it
(`Graph.isGreatest_depth`): along a dependency the depth goes down by one or more, and each step that
is not at depth 0 has a dependency along which it goes down by exactly one.  So there are steps at
every depth below that of a step, and no wave is empty.

The queue from which steps are placed knows nothing of depths.  That the order of execution goes wave
by wave all the same (`Graph.Ranked.depth_le`) comes from its priorities: a step that is placed before
another one is free no later, so the other one has a dependency that is placed no earlier than the
deepest of the first one, and is at least as deep by induction.
-/

namespace Runbook.Plan.Graph
variable {g : Graph} {row : List String} {name other : String} {k : Nat}

/-- **The lengths of the chains of dependencies** that start at a step, counted in dependencies. -/
def chainLengths (g : Graph) (name : String) : Set Nat :=
  {k | ∃ rest : List String, rest.length = k ∧ (name :: rest).IsChain g.DependsOn}

/-- **The steps of a graph wave by wave**, beside a row of them. -/
structure WaveByWave (g : Graph) (row : List String) (waves : List (List String)) : Prop where
  /-- The waves have every step of the graph once. -/
  perm : waves.flatten.Perm g.names
  /-- A step is in the wave whose number is the length of the longest chain that starts at it. -/
  longest : ∀ name ∈ g.names, ∃ k wave, IsGreatest (g.chainLengths name) k ∧
    waves[k]? = some wave ∧ name ∈ wave
  /-- No wave is empty. -/
  nonempty : ∀ wave ∈ waves, wave ≠ []
  /-- Each wave is in order of declaration. -/
  declared : ∀ wave ∈ waves, wave.Sublist g.names
  /-- The steps of a wave do not depend on each other, directly or through others. -/
  independent : ∀ wave ∈ waves, ∀ name ∈ wave, ∀ other ∈ wave,
    ¬ Relation.TransGen g.DependsOn name other
  /-- The row has the steps of each wave before those of later ones. -/
  ordered : waves.Pairwise fun wave later =>
    ∀ name ∈ wave, ∀ other ∈ later, row.idxOf name < row.idxOf other

section Order
variable (h : g.orderError? = none)
include h

/-! ## Depths are lengths of chains -/

theorem depth_lt (hdep : g.DependsOn name other) : g.depth other < g.depth name := by
  obtain ⟨step, hstep, rfl, hmem⟩ := hdep
  exact (depth_le_iff h hstep).mp (Nat.le_refl _) other hmem

theorem depth_lt_of_transGen (hpath : Relation.TransGen g.DependsOn name other) :
    g.depth other < g.depth name := by
  induction hpath with
  | single hdep => exact depth_lt h hdep
  | tail _ hdep ih => exact Nat.lt_trans (depth_lt h hdep) ih

/-- **A step that is not at depth 0 depends on one that is just below it.** -/
theorem exists_dependsOn_of_depth_eq (hname : name ∈ g.names) (hdepth : g.depth name = k + 1) :
    ∃ other, g.DependsOn name other ∧ g.depth other = k := by
  obtain ⟨step, hstep, rfl⟩ := mem_names.mp hname
  have hdeep : ¬ g.depth step.name ≤ k := by omega
  rw [depth_le_iff h hstep] at hdeep
  push Not at hdeep
  obtain ⟨other, hmem, hle⟩ := hdeep
  have hdep : g.DependsOn step.name other := ⟨step, hstep, rfl, hmem⟩
  have hlt := depth_lt h hdep
  exact ⟨other, hdep, by omega⟩

theorem length_le_depth {rest : List String} (hchain : (name :: rest).IsChain g.DependsOn) :
    rest.length ≤ g.depth name := by
  induction rest generalizing name with
  | nil => exact Nat.zero_le _
  | cons next rest ih =>
    obtain ⟨hdep, hchain⟩ := List.isChain_cons_cons.mp hchain
    exact Nat.lt_of_le_of_lt (ih hchain) (depth_lt h hdep)

theorem depth_mem_chainLengths (hname : name ∈ g.names) :
    g.depth name ∈ g.chainLengths name := by
  induction hdepth : g.depth name generalizing name with
  | zero => exact ⟨[], rfl, .singleton name⟩
  | succ k ih =>
    obtain ⟨next, hdep, hnext⟩ := exists_dependsOn_of_depth_eq h hname hdepth
    obtain ⟨rest, hlength, hchain⟩ := ih (mem_names_of_dependsOn h hdep) hnext
    exact ⟨next :: rest, congrArg (· + 1) hlength, List.isChain_cons_cons.mpr ⟨hdep, hchain⟩⟩

/-- **The depth of a step is the length of the longest chain that starts at it.** -/
theorem isGreatest_depth (hname : name ∈ g.names) :
    IsGreatest (g.chainLengths name) (g.depth name) := by
  refine ⟨depth_mem_chainLengths h hname, ?_⟩
  rintro _ ⟨rest, rfl, hchain⟩
  exact length_le_depth h hchain

/-! ## Waves -/

/-- There are steps at every depth down from that of a step. -/
theorem exists_depth_eq (hname : name ∈ g.names) (hk : k ≤ g.depth name) :
    ∃ other ∈ g.names, g.depth other = k := by
  induction hgap : g.depth name - k generalizing name with
  | zero => exact ⟨name, hname, by omega⟩
  | succ gap ih =>
    have hdepth : g.depth name = (g.depth name - 1) + 1 := by omega
    obtain ⟨next, hdep, hnext⟩ := exists_dependsOn_of_depth_eq h hname hdepth
    exact ih (mem_names_of_dependsOn h hdep) (by omega) (by omega)

/-- **There are steps at every depth below the height.** -/
theorem wave_ne_nil (hk : k < g.height) : g.wave k ≠ [] := by
  have hhigh : ¬ g.height ≤ k := Nat.not_le.mpr hk
  rw [height_le_iff h] at hhigh
  push Not at hhigh
  obtain ⟨name, hname, hle⟩ := hhigh
  obtain ⟨other, hother, hdepth⟩ := exists_depth_eq h hname hle
  exact List.ne_nil_of_mem (mem_wave.mpr ⟨hother, hdepth⟩)

theorem depth_lt_height (hname : name ∈ g.names) : g.depth name < g.height :=
  (height_le_iff h).mp (Nat.le_refl _) name hname

theorem flatten_waves_perm : ((List.range g.height).map g.wave).flatten.Perm g.names := by
  have hnodup : ((List.range g.height).map g.wave).flatten.Nodup := by
    refine List.nodup_flatten.mpr ⟨?_, ?_⟩
    · intro wave hwave
      obtain ⟨k, -, rfl⟩ := List.mem_map.mp hwave
      exact g.names_nodup.sublist List.filter_sublist
    · refine List.pairwise_map.mpr (List.pairwise_lt_range.imp fun {i j} hij => ?_)
      intro name hi hj
      have hdepth := (mem_wave.mp hi).2
      rw [(mem_wave.mp hj).2] at hdepth
      omega
  refine (List.perm_ext_iff_of_nodup hnodup g.names_nodup).mpr fun name => ?_
  rw [List.mem_flatten]
  constructor
  · rintro ⟨_, hwave, hmem⟩
    obtain ⟨k, -, rfl⟩ := List.mem_map.mp hwave
    exact (mem_wave.mp hmem).1
  · intro hname
    exact ⟨g.wave (g.depth name), List.mem_map_of_mem (List.mem_range.mpr (depth_lt_height h hname)),
      mem_wave.mpr ⟨hname, rfl⟩⟩

/-! ## The order of execution goes wave by wave -/

omit h in
/-- Steps get free in the order in which they stand. -/
theorem Ranked.freeFrom_le (hrow : g.Ranked row) (hother : other ∈ row)
    (hle : row.idxOf name ≤ row.idxOf other) : g.freeFrom row name ≤ g.freeFrom row other := by
  have hlast : row.idxOf other < row.length := List.idxOf_lt_length_of_mem hother
  have hfirst : row.idxOf name < row.length := Nat.lt_of_le_of_lt hle hlast
  rcases Nat.lt_or_eq_of_le hle with hlt | heq
  · have hsorted := List.pairwise_iff_getElem.mp hrow.sorted _ _ hfirst hlast hlt
    rw [List.getElem_idxOf hfirst, List.getElem_idxOf hlast, priority, priority,
      Prod.Lex.toLex_lt_toLex] at hsorted
    rcases hsorted with hbefore | ⟨hsame, -⟩
    · exact Nat.le_of_lt hbefore
    · exact Nat.le_of_eq hsame
  · obtain rfl : name = other := by
      rw [← List.getElem_idxOf hfirst, ← List.getElem_idxOf hlast]
      simp only [heq]
    exact Nat.le_refl _

/-- **A step that stands before another one is no deeper.** -/
theorem Ranked.depth_le (hrow : g.Ranked row) (hother : other ∈ row)
    (hle : row.idxOf name ≤ row.idxOf other) : g.depth name ≤ g.depth other := by
  induction hdepth : g.depth name generalizing name other with
  | zero => exact Nat.zero_le _
  | succ k ih =>
    have hname : name ∈ row :=
      List.idxOf_lt_length_iff.mp (Nat.lt_of_le_of_lt hle (List.idxOf_lt_length_of_mem hother))
    obtain ⟨deepest, hdep, hdeepest⟩ :=
      exists_dependsOn_of_depth_eq h (hrow.perm.mem_iff.mp hname) hdepth
    -- the other step waits for one that is placed no earlier than this dependency
    have hself := freeFrom_le_iff.mp (hrow.freeFrom_le hother hle) deepest hdep
    have hwaits : ¬ g.freeFrom row other ≤ row.idxOf deepest := Nat.not_le.mpr hself
    rw [freeFrom_le_iff] at hwaits
    push Not at hwaits
    obtain ⟨latest, hlatest, hplace⟩ := hwaits
    have hmem : latest ∈ row := hrow.perm.mem_iff.mpr (hrow.mem_names_of_dependsOn hlatest)
    have hdeep := ih hmem hplace hdeepest
    exact Nat.lt_of_le_of_lt hdeep (depth_lt h hlatest)

/-- Steps of an earlier wave stand before those of a later one. -/
theorem Ranked.waves_ordered (hrow : g.Ranked row) :
    ((List.range g.height).map g.wave).Pairwise fun wave later =>
      ∀ name ∈ wave, ∀ other ∈ later, row.idxOf name < row.idxOf other := by
  refine List.pairwise_map.mpr (List.pairwise_lt_range.imp fun {i j} hij => ?_)
  intro name hname other hother
  by_contra hnot
  have hmem : name ∈ row := hrow.perm.mem_iff.mpr (mem_wave.mp hname).1
  have hle := hrow.depth_le h hmem (Nat.not_lt.mp hnot)
  rw [(mem_wave.mp hname).2, (mem_wave.mp hother).2] at hle
  omega

end Order

/-- **The waves of a graph are its steps by the longest chains that start at them**, and the order of
execution goes through them one after another.  There are waves whenever there is an order. -/
theorem waves_by_longest_chain (h : g.order = .ok row) :
    ∃ waves, g.waves = .ok waves ∧ g.WaveByWave row waves := by
  obtain ⟨hnone, rfl⟩ := order_eq_ok_iff.mp h
  have hwave : ∀ wave ∈ (List.range g.height).map g.wave, ∃ k, k < g.height ∧ g.wave k = wave := by
    intro wave hwave
    obtain ⟨k, hk, rfl⟩ := List.mem_map.mp hwave
    exact ⟨k, List.mem_range.mp hk, rfl⟩
  refine ⟨_, waves_eq hnone,
    { perm := flatten_waves_perm hnone
      longest := fun name hname => ?_
      nonempty := fun wave hmem => ?_
      declared := fun wave hmem => ?_
      independent := fun wave hmem name hname other hother hpath => ?_
      ordered := (ranked_placed hnone).waves_ordered hnone }⟩
  · refine ⟨g.depth name, g.wave (g.depth name), isGreatest_depth hnone hname, ?_,
      mem_wave.mpr ⟨hname, rfl⟩⟩
    rw [List.getElem?_map, List.getElem?_range (depth_lt_height hnone hname)]
    rfl
  · obtain ⟨k, hk, rfl⟩ := hwave wave hmem
    exact wave_ne_nil hnone hk
  · obtain ⟨k, -, rfl⟩ := hwave wave hmem
    exact List.filter_sublist
  · obtain ⟨k, -, rfl⟩ := hwave wave hmem
    have hlt := depth_lt_of_transGen hnone hpath
    rw [(mem_wave.mp hname).2, (mem_wave.mp hother).2] at hlt
    exact Nat.lt_irrefl k hlt

/-- A step of a name with its dependencies, and nothing else. -/
def bareStep (name : String) (dependencies : List String) : Step where
  name := name
  ordinal := none
  tool := "t"
  input := []
  output := none
  dependencies := .ofList dependencies
  guard := none
  prompt := ""
  description := none

/-- A step that depends on two others, one of which depends on the other, and a step on its own. -/
def unevenDepths : Graph :=
  .ofSteps [bareStep "a" [], bareStep "b" ["a"], bareStep "c" ["a", "b"], bareStep "d" []]

theorem waves_by_longest_chain_of_unevenDepths :
    unevenDepths.order = .ok ["a", "d", "b", "c"] ∧
      ∃ waves, unevenDepths.waves = .ok waves ∧
        unevenDepths.WaveByWave ["a", "d", "b", "c"] waves := by
  have horder : unevenDepths.order = .ok ["a", "d", "b", "c"] := by decide +kernel
  exact ⟨horder, waves_by_longest_chain horder⟩

end Runbook.Plan.Graph
