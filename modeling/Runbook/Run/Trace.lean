import Runbook.Run.Frontier
import Runbook.Run.Policy

/-!
# Runs

A run is a row of turns.  Each turn makes a pass over the frontier; then steps are handed out, their
tools are called, and the outputs are written.  One step a turn is handed out when a run is
sequential, and all pending steps when it is concurrent; a concurrent turn ends when all of them are
completed, so no step sees the output of another of its turn.

Two things are not for the plan to say, and are parameters of the run: in which order the steps of
a concurrent turn complete (`Completion`), and how tools answer (`Answers`).

Nothing bounds the turns of a run but that each one after which it goes on leaves fewer steps to be
done (`Takes.remaining_lt`).
-/

namespace Runbook.Run

/-- **What a tool's output becomes**: a text that spells a JSON value is that value. -/
def normalize : Json → Json
  | .text s => (Json.read? s).getD (.text s)
  | v => v

namespace Pending

/-- The entry that is kept of an action with an output. -/
def entry (action : Pending) (output : Json) : Entry where
  step := action.step
  dependencies := action.dependencies
  input := action.input
  output := output
  guard := action.guard
  prompt := action.prompt

/-- The action with the answer of its tool. -/
def completeWith (action : Pending) (answer : Json) : Completed :=
  ⟨action.step, normalize answer, action.entry (normalize answer)⟩

/-- What becomes of an action with this answer of its tool. -/
def receive (action : Pending) : Except Tool.Error Json → Except Error Completed
  | .ok answer => .ok (action.completeWith answer)
  | .error e => .error (.tool action.step action.tool e)

/-- **Calls the tool of an action.** -/
def perform (box : Toolbox) (model : Option Tool.Model) (action : Pending) :
    Except Error Completed :=
  action.receive (box.call action.tool action.input model)

end Pending

/-- **A round of a run**: its pass over the frontier, the actions whose tools were called, and the
steps that completed, in order. -/
structure Round where
  pass : Pass
  started : List Pending
  completed : List Completed

/-- **A run as it went**: its rounds, the state at its end, and how it ended. -/
structure Trace where
  rounds : List Round
  state : State
  outcome : Except Error Unit

namespace Trace

/-- The run that begins with a round. -/
def after (round : Round) (t : Trace) : Trace :=
  { t with rounds := round :: t.rounds }

/-- A run that ends before any round. -/
def ended (s : State) (outcome : Except Error Unit) : Trace := ⟨[], s, outcome⟩

end Trace

/-- The run cannot go on. -/
def State.stalled (s : State) : Error := .stalled s.remaining.toList

/-! ## What a run depends on -/

/-- **How tools answer** the actions of a run, given the entries of the steps that completed before:
a tool with a memory answers by what it was asked. -/
abbrev Answers := List Entry → Pending → Except Tool.Error Json

/-- The answers of a toolbox, which depend on the tool, its input and the model alone. -/
def Answers.ofToolbox (box : Toolbox) (model : Option Tool.Model) : Answers :=
  fun _ action => box.call action.tool action.input model

/-- **The order in which the steps of each wave complete.** -/
structure Completion where
  /-- The order of a wave, given its number. -/
  arrange : Nat → List Pending → List Pending
  /-- Every step of the wave completes once. -/
  perm : ∀ wave actions, (arrange wave actions).Perm actions

/-- Steps complete in order of declaration, as they do if they run one after another. -/
def Completion.declared : Completion := ⟨fun _ actions => actions, fun _ _ => List.Perm.refl _⟩

/-! ## Turns -/

/-- What completing the steps of a wave led to. -/
structure Settled where
  /-- The steps that completed, in order. -/
  completed : List Completed
  /-- The state after them. -/
  state : State
  /-- The first failure, at which the wave ended. -/
  failure : Option Error

/-- Calls the tools of a wave and completes its steps, in order, up to the first failure. -/
def settle (answers : Answers) (s : State) : List Pending → Settled
  | [] => ⟨[], s, none⟩
  | action :: rest =>
    match action.receive (answers s.workspace.history action) with
    | .error e => ⟨[], s, some e⟩
    | .ok c =>
      match s.complete c with
      | .error e => ⟨[c], s, some e⟩
      | .ok next =>
        let settled := settle answers next rest
        { settled with completed := c :: settled.completed }

/-- Hands out the steps of a wave. -/
def State.activateAll (s : State) (wave : List Pending) : State :=
  wave.foldl (fun s action => s.activate action.step) s

/-- **A turn of a run**: its round, the state after it, and the end of the run if it ends here. -/
structure Turn where
  round : Round
  state : State
  ending : Option (Except Error Unit)

/-- The turn of a pass that found no action: the run goes on only if the pass skipped steps of `s`. -/
def Pass.rest (p : Pass) (s : State) : Turn where
  round := ⟨p, [], []⟩
  state := p.state
  ending := if s.done.size < p.state.done.size then none else some (.error p.state.stalled)

/-- The turn in which the actions of a wave are handed out, and complete in the order given. -/
def Pass.handOut (p : Pass) (answers : Answers) (wave order : List Pending) : Turn :=
  let settled := settle answers (p.state.activateAll wave) order
  ⟨⟨p, wave, settled.completed⟩, settled.state, settled.failure.map .error⟩

/-- **A turn of a sequential run**: the first pending step is handed out.  A pass that leaves nothing
to be done ends the run. -/
def sequentialTurn (answers : Answers) (s : State) : Turn :=
  let pass := s.frontier
  match pass.pending with
  | [] =>
    if pass.state.isFinished then ⟨⟨pass, [], []⟩, pass.state, some (.ok ())⟩ else pass.rest s
  | action :: _ => pass.handOut answers [action] [action]

/-- **A turn of a concurrent run**: all pending steps are handed out. -/
def concurrentTurn (answers : Answers) (completion : Completion) (wave : Nat) (s : State) : Turn :=
  let pass := s.frontier
  match pass.pending with
  | [] => pass.rest s
  | _ :: _ => pass.handOut answers pass.pending (completion.arrange wave pass.pending)

/-- **The next turn of a run**, of which `wave` came before.  A concurrent run makes no pass when
nothing is left to be done. -/
def turn? (answers : Answers) (completion : Completion) (mode : Mode) (wave : Nat) (s : State) :
    Option Turn :=
  match mode with
  | .sequential => some (sequentialTurn answers s)
  | .concurrent =>
    if s.isFinished then none else some (concurrentTurn answers completion wave s)

/-! ## Every turn leaves fewer steps to be done -/

theorem complete_eq_ok {s next : State} {c : Completed} (h : s.complete c = .ok next) :
    s.workspace.outputs.contains c.step = false ∧
      next = { s with
        remaining := s.remaining.erase c.step
        activated := s.activated.erase c.step
        done := s.done.insert c.step
        graph := s.graph.setOutput c.step c.output
        workspace :=
          ({ s.workspace with outputs := s.workspace.outputs.put c.step c.output }.record
            c.entry).setLast c.step } := by
  unfold State.complete Workspace.bind at h
  cases hbound : s.workspace.outputs.contains c.step with
  | true => simp [hbound] at h
  | false =>
    simp only [hbound, Bool.false_eq_true, ite_false, Except.ok.injEq] at h
    exact ⟨rfl, h.symm⟩

theorem step_of_receive {action : Pending} {answer : Except Tool.Error Json} {c : Completed}
    (h : action.receive answer = .ok c) : c.step = action.step := by
  cases answer with
  | error e => cases h
  | ok v =>
    cases h
    rfl

theorem receive_eq_ok (action : Pending) {result : Except Tool.Error Json} {answer : Json}
    (h : result = .ok answer) : action.receive result = .ok (action.completeWith answer) := by
  rw [h]
  rfl

theorem receive_eq_error (action : Pending) {result : Except Tool.Error Json} {e : Tool.Error}
    (h : result = .error e) : action.receive result = .error (.tool action.step action.tool e) := by
  rw [h]
  rfl

theorem settle_of_error {answers : Answers} {s : State} {action : Pending} {rest : List Pending}
    {e : Error} (h : action.receive (answers s.workspace.history action) = .error e) :
    settle answers s (action :: rest) = ⟨[], s, some e⟩ := by
  simp only [settle, h]

theorem settle_of_twice {answers : Answers} {s : State} {action : Pending} {rest : List Pending}
    {c : Completed} {e : Error} (h : action.receive (answers s.workspace.history action) = .ok c)
    (hc : s.complete c = .error e) : settle answers s (action :: rest) = ⟨[c], s, some e⟩ := by
  simp only [settle, h, hc]

theorem settle_of_ok {answers : Answers} {s next : State} {action : Pending} {rest : List Pending}
    {c : Completed} (h : action.receive (answers s.workspace.history action) = .ok c)
    (hc : s.complete c = .ok next) :
    settle answers s (action :: rest) =
      { settle answers next rest with completed := c :: (settle answers next rest).completed } := by
  simp only [settle, h, hc]

theorem remaining_complete {s next : State} {c : Completed} (h : s.complete c = .ok next) :
    next.remaining = s.remaining.erase c.step := by
  rw [(complete_eq_ok h).2]

theorem remaining_settle_le (answers : Answers) (s : State) (order : List Pending) :
    (settle answers s order).state.remaining.size ≤ s.remaining.size := by
  induction order generalizing s with
  | nil => exact Nat.le_refl _
  | cons action rest ih =>
    cases hreceive : action.receive (answers s.workspace.history action) with
    | error e =>
      simp [settle_of_error hreceive]
    | ok c =>
      cases hnext : s.complete c with
      | error e =>
        simp [settle_of_twice hreceive hnext]
      | ok next =>
        rw [settle_of_ok hreceive hnext]
        refine Nat.le_trans (ih next) ?_
        rw [remaining_complete hnext]
        exact NameSet.size_erase_le s.remaining c.step

theorem remaining_settle_lt {answers : Answers} {s : State} {action : Pending}
    {rest : List Pending} (hmem : action.step ∈ s.remaining)
    (hok : (settle answers s (action :: rest)).failure = none) :
    (settle answers s (action :: rest)).state.remaining.size < s.remaining.size := by
  cases hreceive : action.receive (answers s.workspace.history action) with
  | error e =>
    rw [settle_of_error hreceive] at hok
    cases hok
  | ok c =>
    cases hnext : s.complete c with
    | error e =>
      rw [settle_of_twice hreceive hnext] at hok
      cases hok
    | ok next =>
      rw [settle_of_ok hreceive hnext]
      refine Nat.lt_of_le_of_lt (remaining_settle_le answers next rest) ?_
      rw [remaining_complete hnext]
      exact NameSet.size_erase_lt (step_of_receive hreceive ▸ hmem)

@[simp] theorem remaining_activateAll (s : State) (wave : List Pending) :
    (s.activateAll wave).remaining = s.remaining := by
  induction wave generalizing s with
  | nil => rfl
  | cons action rest ih => exact ih (s.activate action.step)

namespace State

/-- The step of a pending action is still to be done after the pass that found it. -/
theorem pending_mem_remaining {s : State} {action : Pending} (h : action ∈ s.frontier.pending) :
    action.step ∈ s.frontier.state.remaining ∧ action.step ∈ s.remaining := by
  rw [frontier_eq] at h ⊢
  obtain ⟨step, hstep, rfl⟩ := List.mem_map.mp h
  obtain ⟨hready, hrun⟩ := List.mem_filter.mp hstep
  obtain ⟨hfind, hmem, _⟩ := mem_readySteps.mp hready
  refine ⟨mem_remaining_skipAll.mpr ⟨hmem, ?_⟩, hmem⟩
  intro k hk hname
  obtain ⟨step', hready', hk⟩ := List.mem_filterMap.mp hk
  obtain ⟨expression, hrefusal, rfl⟩ := Option.map_eq_some_iff.mp hk
  have hsame : s.graph.find? step'.name = some step' := (mem_readySteps.mp hready').1
  have hname' : step'.name = step.name := hname
  rw [hname', hfind] at hsame
  obtain rfl : step = step' := Option.some.inj hsame
  simp [hrefusal] at hrun

theorem remaining_skipAll_le (s : State) (skips : List Skip) :
    (s.skipAll skips).remaining.size ≤ s.remaining.size := by
  induction skips generalizing s with
  | nil => exact Nat.le_refl _
  | cons k rest ih =>
    exact Nat.le_trans (ih (s.skip k.step)) (NameSet.size_erase_le s.remaining k.step)

/-- A pass that makes steps done leaves fewer to be done. -/
theorem remaining_frontier_lt {s : State} (h : s.done.size < s.frontier.state.done.size) :
    s.frontier.state.remaining.size < s.remaining.size := by
  rw [frontier_eq] at h ⊢
  cases hskips : s.refusals s.readySteps with
  | nil =>
    rw [hskips] at h
    exact absurd h (Nat.lt_irrefl _)
  | cons k rest =>
    have hk : k ∈ s.refusals s.readySteps := hskips ▸ List.mem_cons_self
    obtain ⟨step, hready, hk⟩ := List.mem_filterMap.mp hk
    obtain ⟨expression, _, rfl⟩ := Option.map_eq_some_iff.mp hk
    exact Nat.lt_of_le_of_lt (remaining_skipAll_le (s.skip step.name) rest)
      (NameSet.size_erase_lt (mem_readySteps.mp hready).2.1)

end State

theorem remaining_handOut {answers : Answers} {s : State} {wave order : List Pending}
    (horder : order ≠ []) (hpending : ∀ action ∈ order, action ∈ s.frontier.pending)
    (hgoes : (s.frontier.handOut answers wave order).ending = none) :
    (s.frontier.handOut answers wave order).state.remaining.size < s.remaining.size := by
  obtain ⟨action, rest, rfl⟩ := List.exists_cons_of_ne_nil horder
  have hle := State.remaining_skipAll_le s (s.refusals s.readySteps)
  have hmem := (State.pending_mem_remaining (hpending action List.mem_cons_self)).1
  have hok : (settle answers (s.frontier.state.activateAll wave) (action :: rest)).failure = none :=
    Option.map_eq_none_iff.mp hgoes
  have hlt := remaining_settle_lt (by rwa [remaining_activateAll]) hok
  rw [remaining_activateAll] at hlt
  refine Nat.lt_of_lt_of_le hlt ?_
  rwa [State.frontier_eq]

theorem remaining_rest {s : State} (hgoes : (s.frontier.rest s).ending = none) :
    (s.frontier.rest s).state.remaining.size < s.remaining.size := by
  unfold Pass.rest at hgoes
  split at hgoes
  · exact State.remaining_frontier_lt (by assumption)
  · cases hgoes

/-- **What a turn can be**, in either mode: a pass that leaves nothing to be done, a pass without
an action, or the handing out of some pending actions. -/
inductive Takes (answers : Answers) (s : State) : Turn → Prop
  | finish (hidle : s.frontier.pending = []) (hfinished : s.frontier.state.isFinished = true) :
    Takes answers s ⟨⟨s.frontier, [], []⟩, s.frontier.state, some (.ok ())⟩
  | rest (hidle : s.frontier.pending = []) (hleft : s.isFinished = false) :
    Takes answers s (s.frontier.rest s)
  | handOut {wave order : List Pending} (hne : wave ≠ []) (hsub : wave.Sublist s.frontier.pending)
    (hperm : order.Perm wave) : Takes answers s (s.frontier.handOut answers wave order)

theorem isFinished_frontier {s : State} (h : s.isFinished = true) :
    s.frontier.state.isFinished = true := by
  have hle := State.remaining_skipAll_le s (s.refusals s.readySteps)
  rw [State.isFinished, NameSet.isEmpty, List.isEmpty_iff_length_eq_zero] at h ⊢
  rw [State.frontier_eq]
  exact Nat.le_zero.mp (h ▸ hle)

theorem takes_sequentialTurn (answers : Answers) (s : State) :
    Takes answers s (sequentialTurn answers s) := by
  unfold sequentialTurn
  dsimp only
  split
  · rename_i hidle
    split
    · exact .finish hidle (by assumption)
    · rename_i hleft
      refine .rest hidle (Bool.eq_false_iff.mpr fun h => hleft (isFinished_frontier h))
  · rename_i action rest hpending
    refine .handOut (List.cons_ne_nil _ _) ?_ (List.Perm.refl _)
    rw [hpending]
    exact List.singleton_sublist.mpr List.mem_cons_self

theorem takes_concurrentTurn (answers : Answers) (completion : Completion) (wave : Nat) {s : State}
    (hleft : s.isFinished = false) :
    Takes answers s (concurrentTurn answers completion wave s) := by
  unfold concurrentTurn
  dsimp only
  split
  · exact .rest (by assumption) hleft
  · rename_i action rest hpending
    refine .handOut ?_ (List.Sublist.refl _) (completion.perm wave _)
    rw [hpending]
    exact List.cons_ne_nil _ _

theorem takes_of_turn? {answers : Answers} {completion : Completion} {mode : Mode} {wave : Nat}
    {s : State} {t : Turn} (ht : turn? answers completion mode wave s = some t) :
    Takes answers s t := by
  cases mode with
  | sequential =>
    obtain rfl : sequentialTurn answers s = t := Option.some.inj ht
    exact takes_sequentialTurn answers s
  | concurrent =>
    cases hleft : s.isFinished with
    | true => simp [turn?, hleft] at ht
    | false =>
      simp only [turn?, hleft, Bool.false_eq_true, ite_false] at ht
      obtain rfl : concurrentTurn answers completion wave s = t := Option.some.inj ht
      exact takes_concurrentTurn answers completion wave hleft

/-- **After every turn but the last one, fewer steps are left to be done.** -/
theorem Takes.remaining_lt {answers : Answers} {s : State} {t : Turn} (ht : Takes answers s t)
    (hgoes : t.ending = none) : t.state.remaining.size < s.remaining.size := by
  cases ht with
  | finish => cases hgoes
  | rest => exact remaining_rest hgoes
  | handOut hne hsub hperm =>
    refine remaining_handOut ?_ (fun a ha => hsub.subset (hperm.subset ha)) hgoes
    intro hnil
    exact hne (List.Perm.eq_nil (hnil ▸ hperm.symm))

/-! ## Runs -/

/-- **The run of a state**, of which `wave` turns came before. -/
def drive (answers : Answers) (completion : Completion) (mode : Mode) (wave : Nat) (s : State) :
    Trace :=
  match ht : turn? answers completion mode wave s with
  | none => .ended s (.ok ())
  | some t =>
    match hgoes : t.ending with
    | some outcome => Trace.after t.round (.ended t.state outcome)
    | none =>
      have _fewer : t.state.remaining.size < s.remaining.size :=
        (takes_of_turn? ht).remaining_lt hgoes
      Trace.after t.round (drive answers completion mode (wave + 1) t.state)
termination_by s.remaining.size

/-- **A sequential run**, without a language model. -/
def sequential (box : Toolbox) (s : State) : Trace :=
  drive (.ofToolbox box none) .declared .sequential 0 s

/-- **A concurrent run** in which the steps of each wave complete in the given order. -/
def concurrent (box : Toolbox) (model : Option Tool.Model) (completion : Completion)
    (s : State) : Trace :=
  drive (.ofToolbox box model) completion .concurrent 0 s

/-! ## From a plan -/

/-- The records whose tool the toolbox offers. -/
def offered (box : Toolbox) (records : List Plan.Record) : List Plan.Record :=
  records.filter fun r => box.offers (Plan.Step.textField r "toolname")

/-- **The state in which a run of a list of records starts.**  Steps whose tool is not offered are
left out; those that are left need an order. -/
def prepareRecords (box : Toolbox) (records : List Plan.Record) : Except Error State :=
  match Plan.Graph.ofRecords (offered box records) with
  | .error e => .error (.plan e)
  | .ok graph =>
    match graph.orderError? with
    | some e => .error (.unordered e)
    | none => .ok (.start graph)

/-- **The state in which a run of a plan starts.** -/
def prepare (box : Toolbox) (files : Files) (content : String) : Except Error State :=
  match Plan.Document.load files content with
  | .error e => .error (.plan e)
  | .ok records => prepareRecords box records

/-- **The run of a state in a mode.** -/
def course (box : Toolbox) (model : Option Tool.Model) (completion : Completion) (mode : Mode)
    (s : State) : Trace :=
  match mode with
  | .sequential => sequential box s
  | .concurrent => concurrent box model completion s

end Runbook.Run
