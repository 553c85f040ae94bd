import Runbook.Proofs.Guard.Words
import Runbook.Proofs.Substitution
import Runbook.Proofs.Run.Accepted
import Runbook.Run.Frontier

/-!
# Guards that miss an output

A reference to an output that cannot be used becomes `no value`.  If this lands outside the text
literals of a guard, the guard is not read, so it does not hold, whatever else it says
(`holds_eq_false_of_misses`).  A pass over the frontier then skips the step and finds no action of it
(`unknown_word_keeps_closed`).
-/

namespace Runbook.Run
open Reference Guard

/-- **A guard misses an output**: one of its references has no value, and no text literal is open
before it once the references further to the left are replaced. -/
def Misses (outputs : Bindings) (guard : String) : Prop :=
  ∃ (t : Composed) (earlier : List Part) (p : Part) (later : List Part),
    t.source = guard.toList ∧ t.parts = earlier ++ p :: later ∧
      meaning outputs p.body = noValue ∧
      Closed (withoutBreaks (String.ofList (t.start ++ Part.fillings outputs earlier))).toList

theorem fillings_append (outputs : Bindings) (earlier later : List Part) :
    Part.fillings outputs (earlier ++ later) =
      Part.fillings outputs earlier ++ Part.fillings outputs later :=
  List.flatMap_append

/-- A substituted text is the filled one, and the hint may follow. -/
theorem exists_substitute_eq (outputs : Bindings) (t : Composed) :
    ∃ hint, (substitute outputs (String.ofList t.source)).toList = t.filled outputs ++ hint := by
  unfold substitute
  dsimp only
  rw [String.toList_ofList, resolve_source]
  split
  · exact ⟨unresolvedHint.toList, by rw [String.toList_append, String.toList_ofList]⟩
  · exact ⟨[], by rw [String.toList_ofList, List.append_nil]⟩

/-- **A guard that misses an output does not hold.** -/
theorem holds_eq_false_of_misses {outputs : Bindings} {guard : String} (h : Misses outputs guard) :
    holds (substitute outputs guard) = false := by
  obtain ⟨t, earlier, p, later, hsource, hparts, hvalue, hclosed⟩ := h
  obtain ⟨hint, hhint⟩ := exists_substitute_eq outputs t
  rw [hsource, String.ofList_toList] at hhint
  let before : List Char := t.start ++ Part.fillings outputs earlier
  let after : List Char := p.literal ++ Part.fillings outputs later ++ hint
  have htext : (substitute outputs guard).toList = before ++ noValue.toList ++ after := by
    have hfirst : Part.fillings outputs (p :: later) =
        noValue.toList ++ p.literal ++ Part.fillings outputs later := by
      rw [← hvalue]
      rfl
    rw [hhint, Composed.filled, hparts, fillings_append, hfirst]
    simp [before, after]
  have hkept : (withoutBreaks (substitute outputs guard)).toList =
      (withoutBreaks (String.ofList before)).toList ++ noValue.toList ++
        (withoutBreaks (String.ofList after)).toList := by
    have hplain : noValue.toList.filter (fun c => c != '\n' && c != '\r') = noValue.toList := by
      decide
    simp only [withoutBreaks, htext, String.toList_ofList, List.filter_append, hplain]
  obtain ⟨fault, hread⟩ := exists_error_of_noValue hclosed hkept
  exact holds_eq_false hread

/-- A step whose guard misses an output is refused. -/
theorem refusal?_of_misses {s : State} {step : Plan.Step} {guard : String}
    (hguard : step.guard = some guard) (h : Misses s.workspace.outputs guard) :
    s.refusal? step = some (s.guardText guard) := by
  have hclosed : holds (s.guardText guard) = false := holds_eq_false_of_misses h
  simp [State.refusal?, hguard, hclosed]

/-- **Unknown words close guards.**  A text with a word that means nothing is not read, wherever the
word stands, and without line breaks it does not hold.  So no pass hands out a step whose guard
misses an output, and one that comes to the step skips it. -/
theorem unknown_word_keeps_closed :
    (∀ (source : String) (ls : List Lexeme) (l : Lexeme) (word : String),
      lexemes source = .ok ls → l ∈ ls → l.token = .word word →
      word ∉ ["and", "or", "not", "in", "属于", "True", "true", "False", "false", "None", "null"] →
      (∃ fault, read source = .error fault) ∧
        (IsLine source → holds source = false)) ∧
      ∀ (s : State) (step : Plan.Step) (guard : String),
        s.graph.find? step.name = some step → step.guard = some guard →
        Misses s.workspace.outputs guard →
        (∀ action ∈ s.frontier.pending, action.step ≠ step.name) ∧
          (step ∈ s.readySteps → ⟨step.name, s.guardText guard⟩ ∈ s.frontier.skipped) := by
  constructor
  · intro source ls l word hls hl hword hunknown
    obtain ⟨fault, hread⟩ := exists_error_of_word hls hl hword hunknown
    refine ⟨⟨fault, hread⟩, fun hline => ?_⟩
    rw [← withoutBreaks_eq_self hline] at hread
    exact holds_eq_false hread
  · intro s step guard hfind hguard hmisses
    have hrefused := refusal?_of_misses hguard hmisses
    rw [State.frontier_eq]
    constructor
    · intro action haction hname
      obtain ⟨other, hother, rfl⟩ := List.mem_map.mp haction
      obtain ⟨hready, hruns⟩ := List.mem_filter.mp hother
      have hsame : some other = some step := by
        rw [← (State.mem_readySteps.mp hready).1, ← hfind]
        exact congrArg s.graph.find? hname
      rw [Option.some.inj hsame, hrefused] at hruns
      cases hruns
    · intro hready
      refine List.mem_filterMap.mpr ⟨step, hready, ?_⟩
      rw [hrefused]
      rfl

/-- A reference behind an operand that holds. -/
def behindTrue : Composed where
  start := "True or ".toList
  parts := [⟨['b'], " == 1".toList, by decide, isLiteral_of_not_opened (by decide)⟩]
  isLiteral := isLiteral_of_not_opened (by decide)

/-- Two steps that do not wait for each other, the guard of the first referring to the second behind
an operand that holds. -/
def guardedBehindTrue : String :=
  "- name: a\n  toolname: t\n  activate: True or $\x7bb\x7d == 1\n- name: b\n  toolname: t\n"

theorem first_of_guardedBehindTrue : ((prepare passing .empty guardedBehindTrue).toOption.map fun s =>
    (s.ready, (s.graph.find? "a").map fun step => (step.name, step.guard),
      s.workspace.outputs.isEmpty)) =
    some (["a", "b"], some ("a", some "True or $\x7bb\x7d == 1"), true) := by
  decide +kernel

theorem lexemes_no :
    ∃ ls, lexemes "True or no" = .ok ls ∧ (⟨8, .word "no"⟩ : Lexeme) ∈ ls := by
  have hcut : lexemes "True or no" = .ok [⟨0, .word "True"⟩, ⟨5, .word "or"⟩, ⟨8, .word "no"⟩] :=
    eq_ok_of_toOption (by decide +kernel)
  exact ⟨_, hcut, by decide⟩

/-- An operand that holds does not help: neither text nor guard is read to its end. -/
theorem unknown_word_keeps_closed_of_behindTrue :
    holds "True or no" = false ∧
      ∃ s, prepare passing .empty guardedBehindTrue = .ok s ∧
        (∀ action ∈ s.frontier.pending, action.step ≠ "a") ∧
        ⟨"a", s.guardText "True or $\x7bb\x7d == 1"⟩ ∈ s.frontier.skipped := by
  obtain ⟨htexts, hstates⟩ := unknown_word_keeps_closed
  obtain ⟨ls, hls, hno⟩ := lexemes_no
  refine ⟨(htexts "True or no" ls _ "no" hls hno rfl (by decide)).2 (by decide), ?_⟩
  obtain ⟨s, hs, hfirst⟩ := exists_ok_of_map first_of_guardedBehindTrue
  simp only [Prod.mk.injEq, Option.map_eq_some_iff] at hfirst
  obtain ⟨hready, ⟨step, hfind, hname, hguard⟩, houtputs⟩ := hfirst
  have hmisses : Misses s.workspace.outputs "True or $\x7bb\x7d == 1" := by
    rw [List.isEmpty_iff.mp houtputs]
    exact ⟨behindTrue, [], _, [], by decide, rfl, rfl, by decide⟩
  have hin : step ∈ s.readySteps := by
    refine List.mem_filterMap.mpr ⟨"a", ?_, hfind⟩
    rw [hready]
    exact List.mem_cons_self
  rw [← hname] at hfind
  obtain ⟨hnone, hskipped⟩ := hstates s step _ hfind hguard hmisses
  rw [hname] at hnone hskipped
  exact ⟨s, hs, hnone, hskipped hin⟩

end Runbook.Run
