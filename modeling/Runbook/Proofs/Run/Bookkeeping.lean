import Mathlib.Data.List.Induction
import Runbook.Proofs.Run.Invariant

/-!
# Bookkeeping under any calls

The operations on the state of a run may be called in any order and with any names: unknown and
repeated ones, and those of steps that are done already.  `Kept` is what every row of calls leaves
true of a state, told by the completions that succeeded among them (`State.completions`): one call
keeps it (`Kept.apply`), so it holds after every row of calls (`kept_replay`), and what a workspace
has is only ever extended (`extends_replay`).

Completing a step is a row of writes, each made to the state that the ones before it left
(`State.completeInPlace`).  Only the first of them can fail, so a completion that fails has written
nothing (`State.completeInPlace_eq`).
-/

namespace Runbook.Run

namespace State

/-! ## Completing in place -/

/-- **Writes the output of a step in place**, if it has none. -/
def bindInPlace (step : String) (output : Json) : EStateM Error State Unit := do
  let s ← get
  if s.workspace.outputs.contains step then throw (.completedTwice step)
  set { s with workspace.outputs := s.workspace.outputs.put step output }

/-- **Completes a step in place**, one write after the other.  What was written before a failure
stays written. -/
def completeInPlace (c : Completed) : EStateM Error State Unit := do
  bindInPlace c.step c.output
  modify fun s => { s with workspace := s.workspace.record c.entry }
  modify fun s => { s with workspace := s.workspace.setLast c.step }
  modify fun s => { s with graph := s.graph.setOutput c.step c.output }
  modify fun s => { s with remaining := s.remaining.erase c.step }
  modify fun s => { s with activated := s.activated.erase c.step }
  modify fun s => { s with done := s.done.insert c.step }

theorem bindInPlace_eq (s : State) (step : String) (output : Json) :
    bindInPlace step output s =
      match s.workspace.bind step output with
      | .ok w => .ok () { s with workspace := w }
      | .error e => .error e s := by
  show (if s.workspace.outputs.contains step = true then _ else _ : EStateM Error State Unit) s = _
  unfold Workspace.bind
  by_cases hbound : s.workspace.outputs.contains step = true
  · rw [if_pos hbound, if_pos hbound]
    rfl
  · rw [if_neg hbound, if_neg hbound]
    rfl

/-- **A completion in place** leads where a completion does, and one that fails writes nothing. -/
theorem completeInPlace_eq (s : State) (c : Completed) :
    completeInPlace c s =
      match s.complete c with
      | .ok next => .ok () next
      | .error e => .error e s := by
  have hbind := bindInPlace_eq s c.step c.output
  show EStateM.bind (bindInPlace c.step c.output) _ s = _
  unfold complete EStateM.bind
  rw [hbind]
  cases s.workspace.bind c.step c.output with
  | error e => rfl
  | ok w => rfl

theorem complete_eq_error {s : State} {c : Completed} (h : c.step ∈ s.workspace.outputs.keys) :
    s.complete c = .error (.completedTwice c.step) := by
  unfold complete Workspace.bind
  rw [if_pos (Table.contains_iff.mpr h)]

theorem completeInPlace_of_ok {s next : State} {c : Completed} (h : s.complete c = .ok next) :
    completeInPlace c s = .ok () next := by
  rw [completeInPlace_eq, h]

theorem completeInPlace_of_error {s : State} {c : Completed} {e : Error}
    (h : s.complete c = .error e) : completeInPlace c s = .error e s := by
  rw [completeInPlace_eq, h]

/-! ## The completions among calls -/

/-- The completion that a call makes, if it makes one and that succeeds. -/
def completion? (s : State) : Change → Option Completed
  | .complete c => (s.complete c).toOption.map fun _ => c
  | _ => none

/-- **The completions that succeed** among calls made one after the other. -/
def completions (s : State) : List Change → List Completed
  | [] => []
  | change :: rest => (s.completion? change).toList ++ (s.apply change).completions rest

theorem completions_concat (s : State) (changes : List Change) (change : Change) :
    s.completions (changes ++ [change]) =
      s.completions changes ++ ((s.replay changes).completion? change).toList := by
  induction changes generalizing s with
  | nil => exact List.append_nil _
  | cons first rest ih =>
    have hrest := ih (s.apply first)
    simp only [List.cons_append, completions, hrest, List.append_assoc]
    rfl

end State

/-! ## What is kept -/

/-- **What any calls keep** of the state that a graph starts with, given the completions that
succeeded among them. -/
structure Kept (g : Plan.Graph) (s : State) (completions : List Completed) : Prop where
  /-- Of the steps only the outputs change, to those that are bound. -/
  graph_eq : s.graph = g.fill s.workspace.outputs
  /-- The steps left to be done are those that are not done, in order of declaration. -/
  remaining_eq : s.remaining.toList = g.names.filter fun name => !s.done.contains name
  /-- What is skipped is done. -/
  skipped_done : ∀ name ∈ s.skipped, name ∈ s.done
  /-- What has an output is done. -/
  bound_done : ∀ name ∈ s.workspace.outputs.keys, name ∈ s.done
  /-- The outputs are those of the completions, in the same order … -/
  outputs_eq : s.workspace.outputs = completions.map fun c => (c.step, c.output)
  /-- … and so are the entries of the history. -/
  history_eq : s.workspace.history = completions.map Completed.entry
  /-- The last step is the one that was completed last. -/
  last_eq : s.workspace.last = (completions.map Completed.step).getLast?

/-- The steps left to be done after one of a name is done. -/
theorem filter_not_done_insert {names : List String} (hnodup : names.Nodup) (done : NameSet)
    (name : String) :
    (names.filter fun n => !(done.insert name).contains n) =
      (names.filter fun n => !done.contains n).erase name := by
  rw [(hnodup.filter _).erase_eq_filter, List.filter_filter]
  apply List.filter_congr
  intro n _
  by_cases hn : n = name
  · simp [hn]
  · simp [hn, NameSet.contains_insert_of_ne]

namespace Kept
variable {g : Plan.Graph} {s : State} {completions : List Completed}

theorem start (g : Plan.Graph) : Kept g (.start g) [] where
  graph_eq := Plan.Graph.fill_nil.symm
  remaining_eq := by
    refine (List.filter_eq_self.mpr fun name _ => ?_).symm
    rfl
  skipped_done name h := absurd h List.not_mem_nil
  bound_done name h := absurd h List.not_mem_nil
  outputs_eq := rfl
  history_eq := rfl
  last_eq := rfl

theorem remaining_move (hs : Kept g s completions) (name : String) :
    (s.remaining.erase name).toList =
      g.names.filter fun n => !(s.done.insert name).contains n := by
  have hnodup : g.names.Nodup := g.names_nodup
  rw [filter_not_done_insert hnodup, ← hs.remaining_eq]
  rfl

theorem skip (hs : Kept g s completions) (name : String) : Kept g (s.skip name) completions :=
  { hs with
    remaining_eq := hs.remaining_move name
    skipped_done := by
      intro other hother
      rcases NameSet.mem_insert.mp hother with heq | hother
      · exact NameSet.mem_insert.mpr (Or.inl heq)
      · exact NameSet.mem_insert.mpr (Or.inr (hs.skipped_done other hother))
    bound_done := fun other hother => NameSet.mem_insert.mpr (Or.inr (hs.bound_done other hother)) }

theorem activate (hs : Kept g s completions) (name : String) :
    Kept g (s.activate name) completions :=
  { hs with }

theorem complete (hs : Kept g s completions) {c : Completed} {next : State}
    (hnext : s.complete c = .ok next) : Kept g next (completions ++ [c]) := by
  obtain ⟨hfree, rfl⟩ := complete_eq_ok hnext
  have hnew : c.step ∉ s.workspace.outputs.keys := fun hin => by
    rw [Table.contains_iff.mpr hin] at hfree
    cases hfree
  refine
    { graph_eq := ?_
      remaining_eq := hs.remaining_move c.step
      skipped_done := fun other hother =>
        NameSet.mem_insert.mpr (Or.inr (hs.skipped_done other hother))
      bound_done := ?_
      outputs_eq := ?_
      history_eq := ?_
      last_eq := ?_ }
  · show s.graph.setOutput c.step c.output = _
    rw [hs.graph_eq, Plan.Graph.setOutput_fill]
    rfl
  · intro other hother
    change other ∈ (s.workspace.outputs.put c.step c.output).keys at hother
    rw [Table.keys_put_of_not_mem hnew, List.mem_append, List.mem_singleton] at hother
    refine NameSet.mem_insert.mpr ?_
    rcases hother with hother | heq
    · exact Or.inr (hs.bound_done other hother)
    · exact Or.inl heq
  · show s.workspace.outputs.put c.step c.output = _
    rw [Table.put_of_not_mem hnew, List.map_append, hs.outputs_eq]
    rfl
  · show s.workspace.history ++ [c.entry] = _
    rw [List.map_append, hs.history_eq]
    rfl
  · show some c.step = _
    rw [List.map_append, List.map_singleton, List.getLast?_concat]

/-- **Every call keeps the books**, whatever it names. -/
theorem apply (hs : Kept g s completions) (change : Change) :
    Kept g (s.apply change) (completions ++ (s.completion? change).toList) := by
  cases change with
  | skip step =>
    show Kept g (s.skip step) (completions ++ [])
    rw [List.append_nil]
    exact hs.skip step
  | activate action =>
    show Kept g (s.activate action.step) (completions ++ [])
    rw [List.append_nil]
    exact hs.activate action.step
  | complete c =>
    cases hnext : s.complete c with
    | ok next =>
      simp only [State.apply, State.completion?, hnext]
      exact hs.complete hnext
    | error e =>
      simp only [State.apply, State.completion?, hnext]
      show Kept g s (completions ++ [])
      rw [List.append_nil]
      exact hs

theorem mem_remaining (hs : Kept g s completions) {name : String} :
    name ∈ s.remaining ↔ name ∈ g.names ∧ name ∉ s.done := by
  show name ∈ s.remaining.toList ↔ _
  rw [hs.remaining_eq, List.mem_filter, Bool.not_eq_true', NameSet.contains_eq_false_iff]

theorem remaining_sublist (hs : Kept g s completions) : s.remaining.toList.Sublist g.names := by
  rw [hs.remaining_eq]
  exact List.filter_sublist

/-- Every step is left to be done, or done. -/
theorem remaining_or_done (hs : Kept g s completions) {name : String} (hname : name ∈ g.names) :
    name ∈ s.remaining ∨ name ∈ s.done := by
  by_cases hdone : name ∈ s.done
  · exact Or.inr hdone
  · exact Or.inl (hs.mem_remaining.mpr ⟨hname, hdone⟩)

theorem length_history (hs : Kept g s completions) :
    s.workspace.history.length = completions.length := by
  rw [hs.history_eq, List.length_map]

theorem length_outputs (hs : Kept g s completions) :
    s.workspace.outputs.length = completions.length := by
  rw [hs.outputs_eq, List.length_map]

/-- The last step is the one that was bound last. -/
theorem last_bound (hs : Kept g s completions) :
    s.workspace.last = s.workspace.outputs.keys.getLast? := by
  have hkeys : s.workspace.outputs.keys = completions.map Completed.step := by
    show s.workspace.outputs.map Prod.fst = _
    rw [hs.outputs_eq, List.map_map]
    rfl
  rw [hs.last_eq, hkeys]

end Kept

/-- **Any row of calls keeps the books.** -/
theorem kept_replay (g : Plan.Graph) (changes : List Change) :
    Kept g ((State.start g).replay changes) ((State.start g).completions changes) := by
  induction changes using List.reverseRecOn with
  | nil => exact .start g
  | append_singleton changes change ih =>
    rw [State.replay_concat, State.completions_concat]
    exact ih.apply change

/-! ## What is only extended -/

/-- **A workspace extends another**: it has its outputs as they are, and its history goes on from
there. -/
structure Workspace.Extends (w earlier : Workspace) : Prop where
  /-- An output that is written stays. -/
  get?_eq : ∀ name value, earlier.outputs.get? name = some value → w.outputs.get? name = some value
  /-- The entries of the history stay. -/
  history_prefix : earlier.history <+: w.history

namespace Workspace.Extends
variable {w later earlier : Workspace}

theorem refl (w : Workspace) : w.Extends w :=
  ⟨fun _ _ h => h, List.prefix_refl _⟩

theorem trans (h : later.Extends w) (h' : w.Extends earlier) : later.Extends earlier where
  get?_eq name value hvalue := h.get?_eq name value (h'.get?_eq name value hvalue)
  history_prefix := h'.history_prefix.trans h.history_prefix

end Workspace.Extends

theorem extends_apply (s : State) (change : Change) :
    (s.apply change).workspace.Extends s.workspace := by
  cases change with
  | skip step => exact .refl _
  | activate action => exact .refl _
  | complete c =>
    cases hnext : s.complete c with
    | error e =>
      simp only [State.apply, hnext]
      exact .refl _
    | ok next =>
      rw [State.apply_complete hnext]
      obtain ⟨hfree, rfl⟩ := complete_eq_ok hnext
      refine ⟨fun name value hvalue => ?_, List.prefix_append _ _⟩
      -- the name that is written had no output, so it is not this one
      have hne : name ≠ c.step := by
        rintro rfl
        have hin : s.workspace.outputs.contains c.step = true := by
          rw [Table.contains_iff]
          by_contra hnot
          rw [Table.get?_eq_none_iff.mpr hnot] at hvalue
          cases hvalue
        rw [hin] at hfree
        cases hfree
      show (s.workspace.outputs.put c.step c.output).get? name = some value
      rw [Table.get?_put, if_neg hne, hvalue]

theorem extends_replay (s : State) (changes : List Change) :
    (s.replay changes).workspace.Extends s.workspace := by
  induction changes generalizing s with
  | nil => exact .refl _
  | cons change rest ih => exact (ih (s.apply change)).trans (extends_apply s change)

/-- **The bookkeeping of a state holds under any use of its operations.**  After any row of calls,
with any names: of the graph only the outputs change; the steps left to be done stand in order of
declaration, none of them is done, and every step is one or the other; what is skipped or has an
output is done; outputs and history have an entry for each completion that succeeded and stay as
they were written, and the last step is the one bound last.  A completion fails exactly if its name
has an output, and then leaves the state as it was. -/
theorem books_kept_under_any_calls (g : Plan.Graph) (changes : List Change) :
    let s := (State.start g).replay changes
    let successes := ((State.start g).completions changes).length
    s.graph = g.fill s.workspace.outputs ∧
    (s.remaining.toList.Sublist g.names ∧ (∀ name ∈ s.remaining, name ∉ s.done) ∧
      ∀ name ∈ g.names, name ∈ s.remaining ∨ name ∈ s.done) ∧
    ((∀ name ∈ s.skipped, name ∈ s.done) ∧ ∀ name ∈ s.workspace.outputs.keys, name ∈ s.done) ∧
    (∀ before, before <+: changes →
      s.workspace.Extends ((State.start g).replay before).workspace) ∧
    (s.workspace.history.length = successes ∧ s.workspace.outputs.length = successes ∧
      s.workspace.last = s.workspace.outputs.keys.getLast?) ∧
    ∀ c : Completed,
      if c.step ∈ s.workspace.outputs.keys then
        s.complete c = .error (.completedTwice c.step) ∧
          State.completeInPlace c s = .error (.completedTwice c.step) s
      else
        ∃ next, s.complete c = .ok next ∧ State.completeInPlace c s = .ok () next := by
  intro s successes
  have hkept : Kept g s _ := kept_replay g changes
  refine ⟨hkept.graph_eq, ⟨hkept.remaining_sublist, fun _ h => (hkept.mem_remaining.mp h).2,
    fun _ => hkept.remaining_or_done⟩, ⟨hkept.skipped_done, hkept.bound_done⟩, ?_,
    ⟨hkept.length_history, hkept.length_outputs, hkept.last_bound⟩, fun c => ?_⟩
  · rintro before ⟨more, hmore⟩
    have hs : s = ((State.start g).replay before).replay more := by
      rw [← State.replay_append, hmore]
    rw [hs]
    exact extends_replay _ more
  · split
    · rename_i hbound
      have herror := State.complete_eq_error hbound
      exact ⟨herror, State.completeInPlace_of_error herror⟩
    · rename_i hfree
      obtain ⟨next, hnext⟩ := exists_complete hfree
      exact ⟨next, hnext, State.completeInPlace_of_ok hnext⟩

end Runbook.Run
