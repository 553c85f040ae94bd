import Runbook.Proofs.Settings
import Runbook.Proofs.Run.Start

/-!
# The tools that a run calls

A step is kept if there is a description under the name of its tool, and when it is handed out the
tool is looked up in another table.  The two tables of a registry have the same names, so no tool is
missed: what a run calls was registered, and answers as it was first registered
(`tool_calls_reach_first_registered`).
-/

namespace Runbook.Run
variable {box : Toolbox} {files : Files} {content : String}

/-- **The steps of a run call tools that are offered.** -/
theorem offers_of_prepare {s : State} (h : prepare box files content = .ok s) :
    ∀ step ∈ s.graph.steps, box.offers step.tool = true := by
  obtain ⟨records, g, hcollects, rfl⟩ := exists_collects_of_prepare h
  intro step hstep
  obtain ⟨r, ⟨earlier, later, hrecords, -⟩, hdescribes⟩ := hcollects.described step hstep
  have hkept : r ∈ offered box records := by
    rw [hrecords]
    exact List.mem_append_right _ List.mem_cons_self
  rw [hdescribes.tool_eq]
  exact (List.mem_filter.mp hkept).2

/-- **An action that is handed out calls the tool of a step.** -/
theorem Reached.exists_step_of_handedOut {answers : Answers} {g : Plan.Graph} {s : State}
    {inFlight : List Pending} {changes : List Change} (hr : Reached answers g s inFlight changes)
    {action : Pending} (h : action ∈ handedOut changes) :
    ∃ step ∈ g.steps, action.tool = step.tool := by
  induction hr with
  | start => exact absurd h List.not_mem_nil
  | skip _ _ _ _ ih => exact ih (by simpa using h)
  | activate _ hstep _ _ ih =>
    rw [handedOut_concat_activate] at h
    rcases List.mem_append.mp h with h | h
    · exact ih h
    · obtain rfl := List.mem_singleton.mp h
      exact ⟨_, hstep, rfl⟩
  | complete _ _ _ _ ih => exact ih (by simpa using h)

section Registered
variable {r : Tool.Registry} {entries : List (Tool.Spec × Tool)} {s : State}

/-- What a run of registered tools hands out is answered by a registered tool. -/
theorem exists_call_eq_of_handedOut (hholds : r.HoldsFirst entries)
    (h : prepare r.toolbox files content = .ok s) (answers : Answers) (completion : Completion)
    (mode : Mode) {action : Pending}
    (haction : action ∈ handedOut (drive answers completion mode 0 s).changes) :
    ∃ entry, Tool.Registry.first? entries action.tool = some entry ∧
      r.call action.tool = entry.2 := by
  obtain ⟨_, hreached, -⟩ := reached_of_prepare h answers completion mode
  obtain ⟨step, hstep, htool⟩ := hreached.exists_step_of_handedOut haction
  exact hholds.exists_call_eq (htool ▸ offers_of_prepare h step hstep)

/-- The error with which such a run ends is one that a registered tool gives. -/
theorem exists_error_eq_of_outcome (hholds : r.HoldsFirst entries)
    (h : prepare r.toolbox files content = .ok s) (model : Option Tool.Model)
    (completion : Completion) (mode : Mode) {e : Error}
    (hend : (drive (.ofToolbox r.toolbox model) completion mode 0 s).outcome = .error e) :
    ∃ step tool reason entry arguments, e = .tool step tool reason ∧
      Tool.Registry.first? entries tool = some entry ∧ entry.2 arguments model = .error reason := by
  obtain ⟨_, hreached, hended⟩ := reached_of_prepare h (.ofToolbox r.toolbox model) completion mode
  rw [hend] at hended
  cases hended with
  | @failed action reason hmem hanswer =>
    obtain ⟨entry, hfirst, hcall⟩ := exists_call_eq_of_handedOut hholds h _ completion mode
      (hreached.handedOut_of_mem hmem)
    refine ⟨_, _, reason, entry, action.input, rfl, hfirst, ?_⟩
    rw [← hcall]
    exact hanswer

end Registered

/-- **The tables of a registry never drift apart.**  Whatever is registered, and refused as a
duplicate, both have the same names, each of them once, and hold what was first registered under a
name; a refusal writes nothing.  Settings name each tool once, so their tools are all registered, in
order of declaration.  Every tool call of a run over a registry is answered by the tool that was
first registered under the name, and the error with which a run ends is one that such a tool
gave. -/
theorem tool_calls_reach_first_registered (entries : List (Tool.Spec × Tool)) :
    let r := Tool.Registry.attempts entries
    r.HoldsFirst entries ∧
    (∀ spec tool, spec.name ∈ r.specs.keys →
      Tool.Registry.registerInPlace spec tool r = .error (.duplicate spec.name) r) ∧
    (∀ settings : Settings, settings.tools.keys.Nodup →
      settings.registry = .ok (.attempts (Settings.declared settings.tools)) ∧
        (Tool.Registry.attempts (Settings.declared settings.tools)).names =
          settings.tools.keys) ∧
    (∀ text settings, Settings.ofText? text = some settings → settings.tools.keys.Nodup) ∧
    ∀ files content s, prepare r.toolbox files content = .ok s → ∀ completion mode,
      (∀ answers, ∀ action ∈ handedOut (drive answers completion mode 0 s).changes,
        ∃ entry, Tool.Registry.first? entries action.tool = some entry ∧
          r.call action.tool = entry.2) ∧
      ∀ model e, (drive (.ofToolbox r.toolbox model) completion mode 0 s).outcome = .error e →
        ∃ step tool reason entry arguments, e = .tool step tool reason ∧
          Tool.Registry.first? entries tool = some entry ∧
            entry.2 arguments model = .error reason := by
  intro r
  have hholds : r.HoldsFirst entries := Tool.Registry.holdsFirst_attempts entries
  refine ⟨hholds, fun _ _ => Tool.Registry.registerInPlace_of_mem,
    fun settings hnodup => ⟨Settings.registry_eq_ok hnodup, Settings.names_registry hnodup⟩,
    fun _ _ => Settings.nodup_of_ofText?, fun files content s hs completion mode => ⟨?_, ?_⟩⟩
  · exact fun answers action => exists_call_eq_of_handedOut hholds hs answers completion mode
  · exact fun model e => exists_error_eq_of_outcome hholds hs model completion mode

/-- Two tools of one name, the first of which answers with its input, and one of another name
between them. -/
def twoOfOneName : List (Tool.Spec × Tool) :=
  [(⟨"t", "", [], []⟩, fun input _ => .ok (.object input)),
    (⟨"u", "", [], []⟩, fun _ _ => .error (.failed "u" "broken")),
    (⟨"t", "", [], []⟩, fun _ _ => .error (.failed "t" "broken"))]

/-- Two tools that are not declared in the order of their names. -/
def declaredApart : String := "tools:\n  b:\n    command: ls\n  a:\n    description: none\n"

theorem tool_calls_reach_first_registered_of_twoOfOneName :
    let r := Tool.Registry.attempts twoOfOneName
    r.names = ["t", "u"] ∧ (r.tools.get? "t").isSome = true ∧
    (∀ tool, Tool.Registry.registerInPlace ⟨"u", "", [], []⟩ tool r = .error (.duplicate "u") r) ∧
    (∃ settings, Settings.ofText? declaredApart = some settings ∧
      settings.registry = .ok (.attempts (Settings.declared settings.tools)) ∧
      (Tool.Registry.attempts (Settings.declared settings.tools)).names = ["b", "a"]) ∧
    ∃ s, prepare r.toolbox .empty threeSteps = .ok s ∧
      let t := drive (.ofToolbox r.toolbox none) .declared .concurrent 0 s
      (∀ action ∈ handedOut t.changes,
        ∃ entry, Tool.Registry.first? twoOfOneName action.tool = some entry ∧
          r.call action.tool = entry.2) ∧
      ∀ step tool name, t.outcome ≠ .error (.tool step tool (.notFound name)) := by
  intro r
  obtain ⟨hholds, hrefused, hsettings, htexts, hruns⟩ :=
    tool_calls_reach_first_registered twoOfOneName
  have hnames : r.names = ["t", "u"] := by decide
  have hdeclared : ((Settings.ofText? declaredApart).any fun settings =>
      settings.tools.keys == ["b", "a"]) = true := by
    decide +kernel
  have hprepared : ((prepare r.toolbox .empty threeSteps).toOption.any fun _ => true) = true := by
    decide +kernel
  refine ⟨hnames, by decide, fun tool => hrefused _ tool ?_, ?_, ?_⟩
  · show "u" ∈ r.names
    rw [hnames]
    decide
  · obtain ⟨settings, htext, hkeys⟩ := (Option.any_eq_true _ _).mp hdeclared
    obtain ⟨hregistry, hnames⟩ := hsettings settings (htexts _ _ htext)
    exact ⟨settings, htext, hregistry, hnames.trans (eq_of_beq hkeys)⟩
  · obtain ⟨s, hs, -⟩ := exists_ok_of_any hprepared
    obtain ⟨hcalls, herrors⟩ := hruns .empty threeSteps s hs .declared .concurrent
    refine ⟨s, hs, hcalls _, fun step tool name hend => ?_⟩
    obtain ⟨_, _, reason, entry, arguments, heq, hfirst, hreason⟩ := herrors none _ hend
    cases heq
    -- none of the three tools says that it is not found
    have hentry := List.mem_of_find?_eq_some hfirst
    simp only [twoOfOneName, List.mem_cons, List.not_mem_nil, or_false] at hentry
    rcases hentry with rfl | rfl | rfl <;> cases hreason

end Runbook.Run
