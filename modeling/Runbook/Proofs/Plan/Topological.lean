import Mathlib.Data.List.Lex
import Mathlib.Data.List.Nodup
import Runbook.Proofs.Plan.Cycle

/-!
# Topological orders

A topological order of a graph is a row of all its steps in which each comes after those that it
depends on.  Rows are compared by the places at which their steps are declared, as words are compared
by their letters (`Graph.places`).  A row that at each place takes the first declared of the steps
that are free there (`Graph.TakesFirstFree`) is the least of all topological orders
(`Graph.Topological.least`): where another one parts from it, that one goes on with a step that is
free there as well, and so is declared later.
-/

namespace Runbook.Plan.Graph
variable {g : Graph} {row other : List String} {name : String}

/-- **A topological order of the steps of a graph.** -/
structure Topological (g : Graph) (row : List String) : Prop where
  /-- The row has every step of the graph once. -/
  perm : row.Perm g.names
  /-- A step comes after those that it depends on. -/
  after : ∀ name other, g.DependsOn name other → row.idxOf other < row.idxOf name

/-- The places at which the steps of a row are declared. -/
def places (g : Graph) (row : List String) : List Nat :=
  row.map g.names.idxOf

/-- **The topological order that is least by declaration.** -/
structure LeastTopological (g : Graph) (row : List String) : Prop extends g.Topological row where
  /-- No topological order has, at the first place where it differs, a step that is declared
  earlier. -/
  least : ∀ other, g.Topological other → g.places row ≤ g.places other

/-- **At each place of the row stands the first declared of the steps that are free there**: of those
that do not stand before it, while all that they depend on does. -/
def TakesFirstFree (g : Graph) (row : List String) : Prop :=
  ∀ earlier name later, row = earlier ++ name :: later →
    ∀ free ∈ g.names, free ∉ earlier → (∀ d, g.DependsOn free d → d ∈ earlier) →
      g.names.idxOf name ≤ g.names.idxOf free

namespace Topological

theorem nodup (h : g.Topological row) : row.Nodup :=
  h.perm.nodup_iff.mpr g.names_nodup

/-- What a step depends on stands before it. -/
theorem mem_of_dependsOn (h : g.Topological row) {earlier later : List String} {d : String}
    (hsplit : row = earlier ++ name :: later) (hdep : g.DependsOn name d) : d ∈ earlier :=
  (mem_iff_idxOf_lt h.nodup hsplit).mpr (h.after name d hdep)

theorem not_mem_of_split (h : g.Topological row) {earlier later : List String}
    (hsplit : row = earlier ++ name :: later) : name ∉ earlier := fun hin =>
  Nat.lt_irrefl _ ((mem_iff_idxOf_lt h.nodup hsplit).mp hin)

/-! ## The least topological order -/

/-- Where two rows part, the one that takes the first free step is less. -/
theorem places_le (h : g.Topological row) (hfirst : g.TakesFirstFree row)
    (h' : g.Topological other) {rest rest' earlier : List String} (hsplit : row = earlier ++ rest)
    (hsplit' : other = earlier ++ rest') : g.places rest ≤ g.places rest' := by
  induction rest generalizing rest' earlier with
  | nil =>
    cases rest' with
    | nil => exact le_refl _
    | cons _ _ => exact le_of_lt .nil
  | cons name later ih =>
    have hname : name ∈ g.names := h.perm.mem_iff.mp (by simp [hsplit])
    cases rest' with
    | nil =>
      rw [List.append_nil] at hsplit'
      exact absurd (hsplit' ▸ h'.perm.mem_iff.mpr hname) (h.not_mem_of_split hsplit)
    | cons name' later' =>
      have hname' : name' ∈ g.names := h'.perm.mem_iff.mp (by simp [hsplit'])
      have hle := hfirst earlier name later hsplit name' hname' (h'.not_mem_of_split hsplit')
        fun d hdep => h'.mem_of_dependsOn hsplit' hdep
      rcases Nat.lt_or_eq_of_le hle with hlt | heq
      · exact le_of_lt (.rel hlt)
      · obtain rfl : name = name' := (List.idxOf_inj hname).mp heq
        have hmore : ∀ rest : List String, earlier ++ name :: rest = (earlier ++ [name]) ++ rest :=
          List.append_cons earlier name
        exact List.cons_le_cons _ (ih (hsplit.trans (hmore later)) (hsplit'.trans (hmore later')))

/-- **A topological order that always takes the first free step is the least one.** -/
theorem least (h : g.Topological row) (hfirst : g.TakesFirstFree row) : g.LeastTopological row where
  toTopological := h
  least _ h' := h.places_le hfirst h' (List.nil_append _).symm (List.nil_append _).symm

end Topological

/-- The empty row takes nothing. -/
theorem TakesFirstFree.nil : g.TakesFirstFree [] := by
  intro earlier name later h
  exact absurd h.symm (List.append_ne_nil_of_right_ne_nil _ (List.cons_ne_nil _ _))

/-- **A row goes on** with the first declared of the steps that are free after it. -/
theorem TakesFirstFree.concat (h : g.TakesFirstFree row)
    (hname : ∀ free ∈ g.names, free ∉ row → (∀ d, g.DependsOn free d → d ∈ row) →
      g.names.idxOf name ≤ g.names.idxOf free) : g.TakesFirstFree (row ++ [name]) := by
  intro earlier taken later hsplit
  rcases split_concat hsplit with ⟨rfl, rfl⟩ | ⟨rest, hsplit⟩
  · exact hname
  · exact h earlier taken rest hsplit

end Runbook.Plan.Graph
