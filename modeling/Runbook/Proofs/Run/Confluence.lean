import Runbook.Proofs.Run.Agreement
import Runbook.Proofs.Run.Course

/-!
# The order in which waves complete

Two concurrent runs of a plan that differ in the order in which the steps of each wave complete stay
in step: the same waves are handed out, each in states that agree.  A turn of one has a turn of the
other beside it (`Reached.turn_agrees`), so by induction over the turns both runs end
well, in states that agree, or both fail by a tool of the same wave (`concurrent_confluent`).

Nothing is assumed of what steps refer to: a wave sees what the waves before it left, which is the
same in both runs.
-/

namespace Runbook.Run

/-- **Rounds that are alike**: the passes skip the same steps and lead to states that agree, and the
same actions are handed out. -/
structure Round.Alike (r r' : Round) : Prop where
  skipped_eq : r.pass.skipped = r'.pass.skipped
  pass_agrees : r.pass.state.Agrees r'.pass.state
  started_eq : r.started = r'.started

/-- **Runs in step.** -/
structure InStep (box : Toolbox) (model : Option Tool.Model) (t t' : Trace) : Prop where
  /-- Their rounds are alike, one by one. -/
  alike : List.Forall₂ Round.Alike t.rounds t'.rounds
  /-- Both runs end well, in states that agree, or both fail by a tool of their last rounds. -/
  ending : (t.outcome = .ok () ∧ t'.outcome = .ok () ∧ t.state.Agrees t'.state) ∨
    ∃ r r' e e', t.rounds.getLast? = some r ∧ t'.rounds.getLast? = some r' ∧
      t.outcome = .error e ∧ t'.outcome = .error e' ∧ FailsBy box model r.started e ∧
        FailsBy box model r'.started e'

/-! ## Turns in step -/

section Turns
variable {answers : Answers} {completion : Completion} {wave : Nat} {s : State}

theorem turn?_concurrent (hleft : s.isFinished = false) :
    turn? answers completion .concurrent wave s =
      some (concurrentTurn answers completion wave s) := by
  simp [turn?, hleft]

theorem of_turn?_concurrent {t : Turn}
    (ht : turn? answers completion .concurrent wave s = some t) :
    s.isFinished = false ∧ concurrentTurn answers completion wave s = t := by
  cases hleft : s.isFinished with
  | true => simp [turn?, hleft] at ht
  | false => exact ⟨rfl, Option.some.inj ((turn?_concurrent hleft).symm.trans ht)⟩

theorem concurrentTurn_of_idle (hidle : s.frontier.pending = []) :
    concurrentTurn answers completion wave s = s.frontier.rest s := by
  unfold concurrentTurn
  dsimp only
  rw [hidle]

theorem concurrentTurn_of_pending (hpending : s.frontier.pending ≠ []) :
    concurrentTurn answers completion wave s =
      s.frontier.handOut answers s.frontier.pending
        (completion.arrange wave s.frontier.pending) := by
  unfold concurrentTurn
  dsimp only
  split
  · rename_i hidle
    exact absurd hidle hpending
  · rfl

end Turns

namespace Reached
variable {g : Plan.Graph} {s s' : State} {changes changes' : List Change}

/-- The steps that a pass finds have no output when they are handed out. -/
theorem not_mem_keys_of_pending {answers : Answers} (hr : Reached answers g s [] changes)
    {action : Pending} (h : action ∈ s.frontier.pending) :
    action.step ∉ (s.frontier.state.activateAll s.frontier.pending).workspace.outputs.keys := by
  refine (hr.handOut (List.Sublist.refl _)).not_mem_keys ?_
  rw [remaining_activateAll]
  exact (State.pending_mem_remaining h).1

/-- **Beside a turn of one state stands a turn of the other**: their rounds are alike, and they lead to
states that agree or fail by a tool of the wave. -/
theorem turn_agrees {box : Toolbox} {model : Option Tool.Model}
    (hs : Reached (.ofToolbox box model) g s [] changes)
    (hs' : Reached (.ofToolbox box model) g s' [] changes') (hg : g.orderError? = none)
    (h : s.Agrees s') {c : Completion} (c' : Completion) {wave : Nat} {t : Turn}
    (ht : turn? (.ofToolbox box model) c .concurrent wave s = some t) :
    ∃ t', turn? (.ofToolbox box model) c' .concurrent wave s' = some t' ∧
      t.round.Alike t'.round ∧
        ((t.ending = none ∧ t'.ending = none ∧ t.state.Agrees t'.state) ∨
          ∃ e e', t.ending = some (.error e) ∧ t'.ending = some (.error e') ∧
            FailsBy box model t.round.started e ∧ FailsBy box model t'.round.started e') := by
  obtain ⟨hleft, rfl⟩ := of_turn?_concurrent ht
  have hleft' : s'.isFinished = false := hs.isFinished_congr hs' h ▸ hleft
  refine ⟨_, turn?_concurrent hleft', ?_⟩
  have hskipped := hs.skipped_congr hs' h
  have hpass := hs.frontier_agrees hs' h
  have hsame := hs.pending_congr hs' h
  by_cases hidle : s.frontier.pending = []
  · have hidle' : s'.frontier.pending = [] := hsame ▸ hidle
    -- a pass that finds no action has skipped a step, so neither run stalls here.
    have hlt := hs.done_lt_of_pending_eq_nil hg hleft hidle
    have hlt' := hs'.done_lt_of_pending_eq_nil hg hleft' hidle'
    rw [concurrentTurn_of_idle hidle, concurrentTurn_of_idle hidle']
    exact ⟨⟨hskipped, hpass, rfl⟩, Or.inl ⟨if_pos hlt, if_pos hlt', hpass⟩⟩
  · have hpending' : s'.frontier.pending ≠ [] := hsame ▸ hidle
    rw [concurrentTurn_of_pending hidle, concurrentTurn_of_pending hpending']
    refine ⟨⟨hskipped, hpass, hsame⟩, ?_⟩
    have hcases := settle_agrees box model (hpass.activateAll s.frontier.pending)
      (c.perm wave s.frontier.pending) (c'.perm wave s.frontier.pending) (nodup_pending s)
      (fun action => hs.not_mem_keys_of_pending) fun action haction => by
        rw [hsame] at haction ⊢
        exact hs'.not_mem_keys_of_pending haction
    rw [← hsame]
    rcases hcases with ⟨hnone, hnone', hstate⟩ | ⟨e, e', he, he', hfails⟩
    · exact Or.inl ⟨congrArg (Option.map Except.error) hnone,
        congrArg (Option.map Except.error) hnone', hstate⟩
    · exact Or.inr ⟨e, e', congrArg (Option.map Except.error) he,
        congrArg (Option.map Except.error) he', hfails⟩

end Reached

/-! ## Runs in step -/

namespace InStep
variable {box : Toolbox} {model : Option Tool.Model}

theorem ended {s s' : State} (h : s.Agrees s') :
    InStep box model (.ended s (.ok ())) (.ended s' (.ok ())) where
  alike := .nil
  ending := Or.inl ⟨rfl, rfl, h⟩

/-- Runs that fail in one turn each. -/
theorem last {t t' : Turn} {e e' : Error} (hround : t.round.Alike t'.round)
    (hfails : FailsBy box model t.round.started e)
    (hfails' : FailsBy box model t'.round.started e') :
    InStep box model ((Trace.ended t.state (.error e)).after t.round)
      ((Trace.ended t'.state (.error e')).after t'.round) where
  alike := .cons hround .nil
  ending := Or.inr ⟨t.round, t'.round, e, e', rfl, rfl, rfl, rfl, hfails, hfails'⟩

/-- Runs in step after a round each. -/
theorem after {r r' : Round} {rest rest' : Trace} (hround : r.Alike r')
    (hrest : InStep box model rest rest') : InStep box model (rest.after r) (rest'.after r') where
  alike := .cons hround hrest.alike
  ending := by
    rcases hrest.ending with hok | ⟨last, last', e, e', hlast, hlast', hfails⟩
    · exact Or.inl hok
    · refine Or.inr ⟨last, last', e, e', ?_, ?_, hfails⟩
      · show (r :: rest.rounds).getLast? = some last
        rw [List.getLast?_cons, hlast]
        rfl
      · show (r' :: rest'.rounds).getLast? = some last'
        rw [List.getLast?_cons, hlast']
        rfl

end InStep

/-- **Runs from states that agree stay in step.** -/
theorem Reached.drive_inStep {box : Toolbox} {model : Option Tool.Model} {g : Plan.Graph}
    {s s' : State} {changes changes' : List Change}
    (hs : Reached (.ofToolbox box model) g s [] changes)
    (hs' : Reached (.ofToolbox box model) g s' [] changes') (hg : g.orderError? = none)
    (h : s.Agrees s') (c c' : Completion) (wave : Nat) :
    InStep box model (Run.drive (.ofToolbox box model) c .concurrent wave s)
      (Run.drive (.ofToolbox box model) c' .concurrent wave s') := by
  -- induction over the turns of the first run; the second one takes the same turns beside it.
  refine drive_induction (motive := fun wave s t => ∀ s' changes changes',
    Reached (.ofToolbox box model) g s [] changes →
    Reached (.ofToolbox box model) g s' [] changes' → s.Agrees s' →
      InStep box model t (Run.drive (.ofToolbox box model) c' .concurrent wave s'))
    ?_ ?_ ?_ wave s s' changes changes' hs hs' h
  · intro wave s hnone s' changes changes' hs hs' h
    have hfinished : s'.isFinished = true :=
      hs.isFinished_congr hs' h ▸ isFinished_of_turn?_eq_none hnone
    rw [drive_of_none (by simp [turn?, hfinished])]
    exact .ended h
  · intro wave s t outcome ht hend s' changes changes' hs hs' h
    obtain ⟨t', ht', hround, ⟨hgoes, -⟩ | ⟨e, e', he, he', hfails, hfails'⟩⟩ :=
      hs.turn_agrees hs' hg h c' ht
    · rw [hgoes] at hend
      cases hend
    · obtain rfl : Except.error e = outcome := Option.some.inj (he.symm.trans hend)
      rw [drive_of_ending ht' he']
      exact .last hround hfails hfails'
  · intro wave s t rest ht hgoes ih s' changes changes' hs hs' h
    obtain ⟨t', ht', hround, ⟨-, hgoes', hstate⟩ | ⟨e, -, he, -⟩⟩ :=
      hs.turn_agrees hs' hg h c' ht
    · obtain ⟨flying, hnext, hflying, -⟩ := hs.turn hg (takes_of_turn? ht)
      obtain ⟨flying', hnext', hflying', -⟩ := hs'.turn hg (takes_of_turn? ht')
      obtain rfl := hflying hgoes
      obtain rfl := hflying' hgoes'
      rw [drive_of_goes ht' hgoes']
      exact .after hround (ih _ _ _ hnext hnext' hstate)
    · rw [hgoes] at he
      cases he

/-- **The order in which the steps of each wave complete decides nothing** but the order of what is
kept.  Whatever steps refer to, two concurrent runs of a plan hand out the same waves, each in states
that agree; then both end well, with the same steps skipped, the same outputs and the same entries, or
both fail by a tool of the same wave. -/
theorem concurrent_confluent {box : Toolbox} {files : Files} {content : String} {s : State}
    (h : prepare box files content = .ok s) (model : Option Tool.Model) (c c' : Completion) :
    InStep box model (concurrent box model c s) (concurrent box model c' s) := by
  obtain ⟨g, rfl, hg⟩ := start_of_prepare h
  have hr : Reached (.ofToolbox box model) g (.start g) [] [] := .start
  exact hr.drive_inStep hr hg (.refl _) c c' 0

/-- The steps of each wave complete in the reverse order of declaration. -/
def Completion.reversed : Completion := ⟨fun _ actions => actions.reverse, fun _ => List.reverse_perm⟩

theorem concurrent_confluent_of_threeSteps :
    ∃ s, prepare echoing .empty threeSteps = .ok s ∧
      InStep echoing none (concurrent echoing none .declared s)
        (concurrent echoing none .reversed s) := by
  obtain ⟨s, hs, -⟩ := exists_prepare_threeSteps
  exact ⟨s, hs, concurrent_confluent hs none .declared .reversed⟩

end Runbook.Run
