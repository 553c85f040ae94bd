import Runbook.Proofs.Reference
import Runbook.Proofs.Run.Turn

/-!
# States that agree

Two states agree when the same steps are done and skipped in them, with the same outputs and the same
entries, in whatever order these came about (`State.Agrees`).  A pass over the frontier of one finds
what a pass over the other finds (`Reached.frontier_agrees`), and a wave that completes in two orders
leads to states that agree, if no tool of it gives an error (`Completes.agrees`).
-/

namespace Runbook.Run

/-! ## What a step looks at -/

section Looks
variable {s t : State} {step : Plan.Step}

theorem guardText_congr (h : ∀ guard, step.guard = some guard → ∀ r ∈ Reference.inText guard,
    s.workspace.outputs.get? r.step = t.workspace.outputs.get? r.step) :
    step.guard.map s.guardText = step.guard.map t.guardText := by
  cases hguard : step.guard with
  | none => rfl
  | some guard => exact congrArg some (Reference.substitute_congr (h guard hguard))

/-- **Whether a step runs** depends on what its guard refers to. -/
theorem refusal?_congr_guard (h : ∀ guard, step.guard = some guard → ∀ r ∈ Reference.inText guard,
    s.workspace.outputs.get? r.step = t.workspace.outputs.get? r.step) :
    s.refusal? step = t.refusal? step := by
  unfold State.refusal?
  rw [guardText_congr h]

/-- A step refers to outputs that are the same in two states. -/
def SameReferences (s t : State) (step : Plan.Step) : Prop :=
  ∀ r ∈ step.references, s.workspace.outputs.get? r.step = t.workspace.outputs.get? r.step

theorem SameReferences.of_guard (h : SameReferences s t step) : ∀ guard, step.guard = some guard →
    ∀ r ∈ Reference.inText guard,
      s.workspace.outputs.get? r.step = t.workspace.outputs.get? r.step := by
  intro guard hguard r hr
  refine h r ?_
  rw [Plan.Step.references, hguard]
  exact List.mem_append_right _ hr

theorem SameReferences.refusal?_eq (h : SameReferences s t step) :
    s.refusal? step = t.refusal? step :=
  refusal?_congr_guard h.of_guard

/-- **What a step is called with** depends on what it refers to. -/
theorem SameReferences.action_eq (h : SameReferences s t step) :
    s.action step = t.action step := by
  have hinput : Reference.substituteMembers s.workspace.outputs step.input =
      Reference.substituteMembers t.workspace.outputs step.input :=
    Reference.substituteMembers_congr step.input fun r hr => h r (List.mem_append_left _ hr)
  unfold State.action
  rw [hinput, guardText_congr h.of_guard]

end Looks

/-! ## Agreement -/

/-- **States that agree**: they differ at most in the order in which steps were done. -/
structure State.Agrees (s t : State) : Prop where
  /-- The same steps are done … -/
  done_iff : ∀ name, name ∈ s.done ↔ name ∈ t.done
  /-- … and skipped. -/
  skipped_iff : ∀ name, name ∈ s.skipped ↔ name ∈ t.skipped
  /-- Each step has the same output. -/
  output_eq : ∀ name, s.workspace.outputs.get? name = t.workspace.outputs.get? name
  /-- The same entries are kept. -/
  history_perm : s.workspace.history.Perm t.workspace.history

namespace State.Agrees
variable {s t : State}

theorem refl (s : State) : s.Agrees s :=
  ⟨fun _ => Iff.rfl, fun _ => Iff.rfl, fun _ => rfl, List.Perm.refl _⟩

theorem contains_done_eq (h : s.Agrees t) : s.done.contains = t.done.contains := by
  funext name
  rw [Bool.eq_iff_iff, NameSet.contains_iff, NameSet.contains_iff]
  exact h.done_iff name

theorem sameReferences (h : s.Agrees t) (step : Plan.Step) : SameReferences s t step :=
  fun r _ => h.output_eq r.step

theorem skip (h : s.Agrees t) (name : String) : (s.skip name).Agrees (t.skip name) where
  done_iff other := by
    show other ∈ s.done.insert name ↔ other ∈ t.done.insert name
    rw [NameSet.mem_insert, NameSet.mem_insert, h.done_iff]
  skipped_iff other := by
    show other ∈ s.skipped.insert name ↔ other ∈ t.skipped.insert name
    rw [NameSet.mem_insert, NameSet.mem_insert, h.skipped_iff]
  output_eq := h.output_eq
  history_perm := h.history_perm

theorem skipAll (h : s.Agrees t) (skips : List Skip) : (s.skipAll skips).Agrees (t.skipAll skips) := by
  induction skips generalizing s t with
  | nil => exact h
  | cons k rest ih => exact ih (h.skip k.step)

theorem activateAll (h : s.Agrees t) (wave : List Pending) :
    (s.activateAll wave).Agrees (t.activateAll wave) := by
  induction wave generalizing s t with
  | nil => exact h
  | cons action rest ih => exact ih ⟨h.done_iff, h.skipped_iff, h.output_eq, h.history_perm⟩

end State.Agrees

/-! ## Passes over states that agree -/

/-- The steps left to be done after one of them is done. -/
theorem toList_erase_eq {names : List String} {remaining done : NameSet} (moved : String)
    (h : remaining.toList = names.filter fun name => !done.contains name) :
    (remaining.erase moved).toList = names.filter fun name => !(done.insert moved).contains name := by
  show remaining.toList.erase moved = _
  rw [remaining.nodup.erase_eq_filter, h, List.filter_filter]
  apply List.filter_congr
  intro name _
  rw [Bool.eq_iff_iff]
  simp

namespace Reached
variable {answers : Answers} {g : Plan.Graph} {s t : State} {inFlight : List Pending}
  {changes more : List Change}

/-- The steps left to be done are those that are not done, in order of declaration. -/
theorem remaining_eq (hr : Reached answers g s inFlight changes) :
    s.remaining.toList = g.names.filter fun name => !s.done.contains name := by
  induction hr with
  | start => exact (List.filter_eq_self.mpr fun _ _ => rfl).symm
  | @skip s _ _ step _ _ _ _ _ ih => exact toList_erase_eq step.name ih
  | activate _ _ _ _ ih => exact ih
  | @complete s next _ _ action _ _ _ _ hnext ih =>
    rw [(complete_eq_ok hnext).2]
    exact toList_erase_eq action.step ih

section Passes
variable (hs : Reached answers g s [] changes) (ht : Reached answers g t [] more)
  (h : s.Agrees t)
include hs ht h

theorem remaining_congr : s.remaining.toList = t.remaining.toList := by
  rw [hs.remaining_eq, ht.remaining_eq, h.contains_done_eq]

theorem isFinished_congr : s.isFinished = t.isFinished := by
  unfold State.isFinished NameSet.isEmpty
  rw [hs.remaining_congr ht h]

theorem graph_congr : s.graph = t.graph := by
  rw [hs.graph_eq, ht.graph_eq]
  exact Plan.Graph.fill_congr h.output_eq

theorem readySteps_congr : s.readySteps = t.readySteps := by
  have hready : s.isReady = t.isReady := by
    funext step
    unfold State.isReady
    rw [h.contains_done_eq]
  unfold State.readySteps State.ready
  rw [hs.remaining_congr ht h, hs.graph_congr ht h, hready]

/-- **A pass finds the same** in states that agree. -/
theorem pending_congr : s.frontier.pending = t.frontier.pending := by
  have haction : s.action = t.action := funext fun step => (h.sameReferences step).action_eq
  rw [State.frontier_eq, State.frontier_eq]
  show s.actions s.readySteps = t.actions t.readySteps
  unfold State.actions
  rw [hs.readySteps_congr ht h, haction]
  congr 1
  apply List.filter_congr
  intro step _
  have hidle : s.activated.contains step.name = t.activated.contains step.name := by
    rw [NameSet.contains_eq_false_iff.mpr (hs.not_mem_activated _),
      NameSet.contains_eq_false_iff.mpr (ht.not_mem_activated _)]
  rw [(h.sameReferences step).refusal?_eq, hidle]

theorem skipped_congr : s.frontier.skipped = t.frontier.skipped := by
  have hrefusal : s.refusal? = t.refusal? := funext fun step => (h.sameReferences step).refusal?_eq
  rw [State.frontier_eq, State.frontier_eq]
  show s.refusals s.readySteps = t.refusals t.readySteps
  unfold State.refusals
  rw [hs.readySteps_congr ht h, hrefusal]

/-- **Passes over states that agree** lead to states that agree. -/
theorem frontier_agrees : s.frontier.state.Agrees t.frontier.state := by
  have hskipped := hs.skipped_congr ht h
  rw [State.frontier_eq, State.frontier_eq] at hskipped ⊢
  change s.refusals s.readySteps = t.refusals t.readySteps at hskipped
  show (s.skipAll (s.refusals s.readySteps)).Agrees (t.skipAll (t.refusals t.readySteps))
  rw [hskipped]
  exact h.skipAll _

end Passes

end Reached

/-! ## Waves that complete in two orders -/

theorem perform_eq_ok {box : Toolbox} {model : Option Tool.Model} {action : Pending} {answer : Json}
    (h : box.call action.tool action.input model = .ok answer) :
    action.perform box model = .ok (action.completeWith answer) :=
  receive_eq_ok action h

/-- **A wave completed**: the tools of all its actions gave a value, each step has what its tool
gave, and nothing else changed. -/
structure Completes (box : Toolbox) (model : Option Tool.Model) (s : State) (order : List Pending)
    (next : State) : Prop where
  done_iff : ∀ name, name ∈ next.done ↔ name ∈ s.done ∨ name ∈ order.map Pending.step
  skipped_eq : next.skipped = s.skipped
  output_of_mem : ∀ action ∈ order, ∃ c, action.perform box model = .ok c ∧
    next.workspace.outputs.get? action.step = some c.output
  output_of_not_mem : ∀ name, name ∉ order.map Pending.step →
    next.workspace.outputs.get? name = s.workspace.outputs.get? name
  history_eq : next.workspace.history = s.workspace.history ++
    order.filterMap fun action => (action.perform box model).toOption.map Completed.entry

/-- **How a wave fails**: the tool of one of its actions gives an error. -/
def FailsBy (box : Toolbox) (model : Option Tool.Model) (wave : List Pending) (e : Error) : Prop :=
  ∃ action ∈ wave, ∃ reason, box.call action.tool action.input model = .error reason ∧
    e = .tool action.step action.tool reason

/-- A wave completes when the first of its steps and then the others do. -/
theorem Completes.cons {box : Toolbox} {model : Option Tool.Model} {s next last : State}
    {action : Pending} {rest : List Pending} {c : Completed}
    (h : Completes box model next rest last) (hperform : action.perform box model = .ok c)
    (hnext : s.complete c = .ok next) (hname : c.step = action.step)
    (hnew : action.step ∉ rest.map Pending.step) :
    Completes box model s (action :: rest) last := by
  obtain ⟨-, rfl⟩ := complete_eq_ok hnext
  refine ⟨?_, h.skipped_eq, ?_, ?_, ?_⟩
  · intro name
    rw [h.done_iff, NameSet.mem_insert, hname, List.map_cons, List.mem_cons]
    tauto
  · intro other hother
    rcases List.mem_cons.mp hother with rfl | hother
    · refine ⟨c, hperform, ?_⟩
      rw [h.output_of_not_mem _ hnew]
      show (Table.put _ c.step c.output).get? _ = _
      rw [hname, Table.get?_put, if_pos rfl]
    · exact h.output_of_mem other hother
  · intro name hname'
    obtain ⟨hne, hrest⟩ := List.ne_and_not_mem_of_not_mem_cons hname'
    rw [h.output_of_not_mem name hrest]
    show (Table.put _ c.step c.output).get? _ = _
    rw [hname, Table.get?_put, if_neg hne]
  · rw [h.history_eq, List.filterMap_cons_some (b := c.entry) (by rw [hperform]; rfl)]
    exact List.append_assoc _ _ _

/-- **A wave completes or fails**, if none of its steps has an output. -/
theorem settle_cases (box : Toolbox) (model : Option Tool.Model) {s : State} {order : List Pending}
    (hnodup : (order.map Pending.step).Nodup)
    (hfree : ∀ action ∈ order, action.step ∉ s.workspace.outputs.keys) :
    ((settle (.ofToolbox box model) s order).failure = none ∧
        Completes box model s order (settle (.ofToolbox box model) s order).state) ∨
      ∃ e, (settle (.ofToolbox box model) s order).failure = some e ∧ FailsBy box model order e := by
  induction order generalizing s with
  | nil =>
    refine Or.inl ⟨rfl, ?_, rfl, ?_, fun _ _ => rfl, (List.append_nil _).symm⟩
    · intro name
      exact ⟨Or.inl, fun h => h.resolve_right List.not_mem_nil⟩
    · exact fun action haction => absurd haction List.not_mem_nil
  | cons action rest ih =>
    obtain ⟨hnot, hrest⟩ := List.nodup_cons.mp hnodup
    cases hcall : box.call action.tool action.input model with
    | error reason =>
      have hreceive : action.receive (Answers.ofToolbox box model s.workspace.history action) =
          .error (.tool action.step action.tool reason) := receive_eq_error action hcall
      rw [settle_of_error hreceive]
      exact Or.inr ⟨_, rfl, action, List.mem_cons_self, reason, hcall, rfl⟩
    | ok answer =>
      have hperform := perform_eq_ok hcall
      have hreceive : action.receive (Answers.ofToolbox box model s.workspace.history action) =
          .ok (action.completeWith answer) := hperform
      have hkey : action.step ∉ s.workspace.outputs.keys := hfree action List.mem_cons_self
      obtain ⟨next, hnext⟩ := exists_complete (c := action.completeWith answer) hkey
      rw [settle_of_ok hreceive hnext]
      have hfields := (complete_eq_ok hnext).2
      -- the one binding that was added is that of `action`, which comes once in the wave
      have hfree' : ∀ other ∈ rest, other.step ∉ next.workspace.outputs.keys := by
        intro other hother hin
        rw [hfields] at hin
        have hkeys := Table.keys_put_of_not_mem hkey (action.completeWith answer).output
        rcases List.mem_append.mp (hkeys ▸ hin) with hin | hin
        · exact hfree other (List.mem_cons_of_mem _ hother) hin
        · exact hnot (List.mem_singleton.mp hin ▸ List.mem_map_of_mem hother)
      rcases ih hrest hfree' with ⟨hnone, hcompletes⟩ | ⟨e, he, other, hother, hfails⟩
      · exact Or.inl ⟨hnone, hcompletes.cons hperform hnext rfl hnot⟩
      · exact Or.inr ⟨e, he, other, List.mem_cons_of_mem _ hother, hfails⟩

/-- **Completing a wave in another order** leads to a state that agrees. -/
theorem Completes.agrees {box : Toolbox} {model : Option Tool.Model} {s t s' t' : State}
    {order other : List Pending} (hs : Completes box model s order s')
    (ht : Completes box model t other t') (h : s.Agrees t) (hperm : order.Perm other) :
    s'.Agrees t' where
  done_iff name := by
    rw [hs.done_iff, ht.done_iff, h.done_iff, (hperm.map Pending.step).mem_iff]
  skipped_iff name := by
    rw [hs.skipped_eq, ht.skipped_eq]
    exact h.skipped_iff name
  output_eq name := by
    by_cases hin : name ∈ order.map Pending.step
    · obtain ⟨action, haction, rfl⟩ := List.mem_map.mp hin
      obtain ⟨c, hc, hvalue⟩ := hs.output_of_mem action haction
      obtain ⟨c', hc', hvalue'⟩ := ht.output_of_mem action (hperm.mem_iff.mp haction)
      obtain rfl : c = c' := Except.ok.inj (hc.symm.trans hc')
      exact hvalue.trans hvalue'.symm
    · have hout : name ∉ other.map Pending.step := fun h =>
        hin ((hperm.map Pending.step).mem_iff.mpr h)
      rw [hs.output_of_not_mem name hin, ht.output_of_not_mem name hout]
      exact h.output_eq name
  history_perm := by
    rw [hs.history_eq, ht.history_eq]
    exact h.history_perm.append (hperm.filterMap _)

/-- A wave that completed does not fail, in whatever order. -/
theorem Completes.not_failsBy {box : Toolbox} {model : Option Tool.Model} {s s' : State}
    {order other : List Pending} (hs : Completes box model s order s') (hperm : order.Perm other)
    {e : Error} (hfails : FailsBy box model other e) : False := by
  obtain ⟨action, haction, reason, hcall, -⟩ := hfails
  obtain ⟨c, hc, -⟩ := hs.output_of_mem action (hperm.mem_iff.mpr haction)
  unfold Pending.perform at hc
  rw [hcall] at hc
  cases hc

theorem FailsBy.of_perm {box : Toolbox} {model : Option Tool.Model} {wave other : List Pending}
    {e : Error} (h : FailsBy box model wave e) (hperm : wave.Perm other) :
    FailsBy box model other e := by
  obtain ⟨action, haction, hcall⟩ := h
  exact ⟨action, hperm.mem_iff.mp haction, hcall⟩

/-- **A wave that completes in two orders**, in states that agree, leads to states that agree, or it
fails in both. -/
theorem settle_agrees (box : Toolbox) (model : Option Tool.Model) {s t : State}
    {wave order other : List Pending} (h : s.Agrees t) (horder : order.Perm wave)
    (hother : other.Perm wave) (hnodup : (wave.map Pending.step).Nodup)
    (hs : ∀ action ∈ wave, action.step ∉ s.workspace.outputs.keys)
    (ht : ∀ action ∈ wave, action.step ∉ t.workspace.outputs.keys) :
    let settled := settle (.ofToolbox box model) s order
    let settled' := settle (.ofToolbox box model) t other
    (settled.failure = none ∧ settled'.failure = none ∧ settled.state.Agrees settled'.state) ∨
      ∃ e e', settled.failure = some e ∧ settled'.failure = some e' ∧ FailsBy box model wave e ∧
        FailsBy box model wave e' := by
  intro settled settled'
  -- a wave that completes in one order has no failing action, so it completes in every order
  have hperm : order.Perm other := horder.trans hother.symm
  have hleft := settle_cases box model ((horder.map Pending.step).nodup_iff.mpr hnodup)
    fun action haction => hs action (horder.mem_iff.mp haction)
  have hright := settle_cases box model ((hother.map Pending.step).nodup_iff.mpr hnodup)
    fun action haction => ht action (hother.mem_iff.mp haction)
  rcases hleft with ⟨hnone, hdone⟩ | ⟨e, he, hfails⟩
  · rcases hright with ⟨hnone', hdone'⟩ | ⟨e', -, hfails'⟩
    · exact Or.inl ⟨hnone, hnone', hdone.agrees hdone' h hperm⟩
    · exact (hdone.not_failsBy hperm hfails').elim
  · rcases hright with ⟨-, hdone'⟩ | ⟨e', he', hfails'⟩
    · exact (hdone'.not_failsBy hperm.symm hfails).elim
    · exact Or.inr ⟨e, e', he, he', hfails.of_perm horder, hfails'.of_perm hother⟩

end Runbook.Run
