import Runbook.Proofs.Run.Answer

/-!
# What the last result tells

A workspace has one text to tell (`Workspace.Tells`): the text of the output that was written last or,
if that shows nothing, a line for each output that does.  The last result is this text, unless the last
output is a mapping without members: then it is blank, whatever the other outputs have to show
(`Workspace.last_result_tells_iff`).  A run can end so, and its answer is blank although the output of
one of its steps shows something (`answer_is_blank_of_silentLast`).
-/

namespace Runbook.Run

/-! ## Lines of a list -/

section Lines
variable {β : Type} {silent : β → Prop} {row : β → String} {items : List β} {text : String}

/-- **The lines of a list**: one for each item that is not silent, in order. -/
inductive Lines (silent : β → Prop) (row : β → String) : List β → String → Prop
  | nil : Lines silent row [] ""
  | skip {item : β} {rest : List β} {text : String} (hitem : silent item)
      (h : Lines silent row rest text) : Lines silent row (item :: rest) text
  | row {item : β} {rest : List β} {text : String} (hitem : ¬ silent item)
      (h : Lines silent row rest text) : Lines silent row (item :: rest) (row item ++ text)

theorem Lines.unique {other : String} (h : Lines silent row items text)
    (hother : Lines silent row items other) : text = other := by
  induction h generalizing other with
  | nil =>
    cases hother
    rfl
  | skip hitem _ ih =>
    cases hother with
    | skip _ hrest => exact ih hrest
    | row hnot _ => exact absurd hitem hnot
  | row hitem _ ih =>
    cases hother with
    | skip hsilent _ => exact absurd hsilent hitem
    | row _ hrest => rw [ih hrest]

/-- The items that are kept, each as its row. -/
theorem lines_join {keep : β → Bool} (hkeep : ∀ item, keep item = true ↔ ¬ silent item)
    (items : List β) : Lines silent row items (String.join ((items.filter keep).map row)) := by
  induction items with
  | nil => exact .nil
  | cons item rest ih =>
    by_cases hitem : silent item
    · have hdropped : ¬ keep item = true := fun h => (hkeep item).mp h hitem
      rw [List.filter_cons_of_neg hdropped]
      exact .skip hitem ih
    · rw [List.filter_cons_of_pos ((hkeep item).mpr hitem), List.map_cons, String.join_cons]
      exact .row hitem ih

/-- **Nothing is told of a list only if all of it is silent.** -/
theorem Lines.eq_empty_iff (hrow : ∀ item, row item ≠ "") (h : Lines silent row items text) :
    text = "" ↔ ∀ item ∈ items, silent item := by
  induction h with
  | nil => simp
  | skip hitem _ ih => simp [ih, hitem]
  | @row item rest text hitem _ ih =>
    refine iff_of_false (fun h => hrow item (String.append_eq_empty_iff.mp h).1) fun h => ?_
    exact hitem (h item List.mem_cons_self)

end Lines

/-! ## Outputs that show nothing -/

/-- **The output shows nothing**: it is `null`, or a text, a list or a mapping without content. -/
inductive ShowsNothing : Json → Prop
  | null : ShowsNothing .null
  | text : ShowsNothing (.text "")
  | array : ShowsNothing (.array [])
  | object : ShowsNothing (.object [])

theorem isEmptyValue_iff {v : Json} : isEmptyValue v = true ↔ ShowsNothing v := by
  constructor
  · intro h
    cases v with
    | null => exact .null
    | text s =>
      rw [String.isEmpty_iff.mp h]
      exact .text
    | array items =>
      rw [List.isEmpty_iff.mp h]
      exact .array
    | object members =>
      rw [List.isEmpty_iff.mp h]
      exact .object
    | _ => cases h
  · rintro (_ | _ | _ | _) <;> rfl

instance (v : Json) : Decidable (ShowsNothing v) :=
  decidable_of_iff _ isEmptyValue_iff

/-- **The text of an output**: of a mapping a line for each member that has a text, of anything else its
own text. -/
inductive Renders : Json → String → Prop
  | mapping {members : Table Json} {text : String}
      (h : Lines (fun m => m.2.display = "") (fun m => m.2.display ++ "\n") members text) :
      Renders (.object members) text
  | other {v : Json} (hno : ∀ members, v ≠ .object members) : Renders v v.display

theorem Renders.unique {v : Json} {text other : String} (h : Renders v text)
    (hother : Renders v other) : text = other := by
  cases h with
  | mapping hlines =>
    cases hother with
    | mapping hlines' => exact hlines.unique hlines'
    | other hno => exact absurd rfl (hno _)
  | other hno =>
    cases hother with
    | mapping => exact absurd rfl (hno _)
    | other => rfl

theorem renders_render (v : Json) : Renders v (render v) := by
  cases v with
  | object members =>
    have hrender : render (.object members) =
        String.join ((members.filter fun m => !m.2.display.isEmpty).map fun m =>
          m.2.display ++ "\n") := by
      rw [render, Table.values, List.map_map, List.filter_map, List.map_map]
      rfl
    rw [hrender]
    refine .mapping (lines_join (fun m => ?_) members)
    rw [Bool.not_eq_true', ← Bool.not_eq_true, String.isEmpty_iff]
  | _ => exact .other nofun

namespace Workspace
variable {w : Workspace} {text : String}

/-- The line of an output under the name of its step. -/
def namedLine (b : String × Json) : String :=
  b.1 ++ ": " ++ b.2.display ++ "\n"

/-- **All outputs that show something**, in the order in which they were written. -/
def TellsAll (w : Workspace) (text : String) : Prop :=
  Lines (fun b => ShowsNothing b.2) namedLine w.outputs text

/-- The step that ran last has this output. -/
def EndsWith (w : Workspace) (v : Json) : Prop :=
  ∃ step, w.last = some step ∧ w.outputs.get? step = some v

/-- **What a workspace has to tell.** -/
inductive Tells (w : Workspace) : String → Prop
  /-- There is no last output, or it shows nothing. -/
  | all {text : String} (hnothing : ∀ v, w.EndsWith v → ShowsNothing v) (hall : w.TellsAll text) :
      Tells w text
  /-- The last output shows something. -/
  | last {v : Json} {text : String} (hlast : w.EndsWith v) (hv : ¬ ShowsNothing v)
      (h : Renders v text) : Tells w text

theorem EndsWith.unique {v v' : Json} (h : w.EndsWith v) (h' : w.EndsWith v') : v = v' := by
  obtain ⟨step, hlast, hv⟩ := h
  obtain ⟨step', hlast', hv'⟩ := h'
  rw [hlast] at hlast'
  cases hlast'
  rw [hv] at hv'
  exact Option.some.inj hv'

theorem Tells.unique {other : String} (h : w.Tells text) (hother : w.Tells other) :
    text = other := by
  cases h with
  | all hnothing hall =>
    cases hother with
    | all _ hall' => exact hall.unique hall'
    | last hlast hv => exact absurd (hnothing _ hlast) hv
  | last hlast hv hrenders =>
    cases hother with
    | all hnothing => exact absurd (hnothing _ hlast) hv
    | last hlast' _ hrenders' =>
      cases hlast.unique hlast'
      exact hrenders.unique hrenders'

/-- After an output that shows nothing, all outputs are told. -/
theorem EndsWith.tells {v : Json} (h : w.EndsWith v) (hv : ShowsNothing v)
    (hall : w.TellsAll text) : w.Tells text :=
  .all (fun _ h' => h.unique h' ▸ hv) hall

theorem EndsWith.bind_eq {v : Json} (h : w.EndsWith v) :
    (w.last.bind fun step => w.outputs.get? step) = some v :=
  Option.bind_eq_some_iff.mpr h

theorem endsWith_object_iff : w.EndsWith (.object []) ↔
    ((w.last.bind fun step => w.outputs.get? step).any fun v => v.members?.any List.isEmpty) := by
  constructor
  · intro h
    rw [h.bind_eq]
    rfl
  · intro h
    cases hv : w.last.bind fun step => w.outputs.get? step with
    | none =>
      rw [hv] at h
      cases h
    | some v =>
      rw [hv] at h
      cases v with
      | object members =>
        rw [List.isEmpty_iff.mp h] at hv
        exact Option.bind_eq_some_iff.mp hv
      | _ => cases h

instance (w : Workspace) : Decidable (w.EndsWith (.object [])) :=
  decidable_of_iff' _ endsWith_object_iff

/-! ## What the last result is -/

theorem tellsAll_allLines (w : Workspace) : w.TellsAll w.allLines := by
  refine lines_join (fun b => ?_) w.outputs
  rw [Bool.not_eq_true', ← isEmptyValue_iff, Bool.not_eq_true]

theorem allLines_eq_empty_iff (w : Workspace) :
    w.allLines = "" ↔ ∀ b ∈ w.outputs, ShowsNothing b.2 := by
  refine w.tellsAll_allLines.eq_empty_iff fun b h => ?_
  exact absurd (String.append_eq_empty_iff.mp h).2 (by decide)

theorem lastResult_of_none (hnone : ∀ v, ¬ w.EndsWith v) : w.lastResult = w.allLines := by
  have hbind : (w.last.bind fun step => w.outputs.get? step) = none :=
    Option.eq_none_iff_forall_ne_some.mpr fun v hv => hnone v (Option.bind_eq_some_iff.mp hv)
  unfold lastResult
  rw [hbind]

theorem lastResult_of_shows {v : Json} (hlast : w.EndsWith v) (hv : ¬ ShowsNothing v) :
    w.lastResult = render v := by
  have hshown : isEmptyValue v = false := Bool.eq_false_iff.mpr fun h => hv (isEmptyValue_iff.mp h)
  unfold lastResult
  rw [hlast.bind_eq]
  dsimp only
  rw [hshown]
  rfl

theorem lastResult_of_object (hlast : w.EndsWith (.object [])) : w.lastResult = "" := by
  unfold lastResult
  rw [hlast.bind_eq]
  rfl

theorem lastResult_of_nothing {v : Json} (hlast : w.EndsWith v) (hv : ShowsNothing v)
    (hno : v ≠ .object []) : w.lastResult = w.allLines := by
  unfold lastResult
  rw [hlast.bind_eq]
  cases hv with
  | object => exact absurd rfl hno
  | _ => rfl

theorem exists_tells (w : Workspace) : ∃ text, w.Tells text := by
  by_cases hshows : ∃ v, w.EndsWith v ∧ ¬ ShowsNothing v
  · obtain ⟨v, hlast, hv⟩ := hshows
    exact ⟨_, .last hlast hv (renders_render v)⟩
  · refine ⟨_, .all (fun v hlast => ?_) w.tellsAll_allLines⟩
    exact Decidable.not_not.mp fun hv => hshows ⟨v, hlast, hv⟩

theorem tells_lastResult (hno : ¬ w.EndsWith (.object [])) : w.Tells w.lastResult := by
  by_cases hlast : ∃ v, w.EndsWith v
  · obtain ⟨v, hlast⟩ := hlast
    by_cases hv : ShowsNothing v
    · rw [lastResult_of_nothing hlast hv fun hobject => hno (hobject ▸ hlast)]
      exact hlast.tells hv w.tellsAll_allLines
    · rw [lastResult_of_shows hlast hv]
      exact .last hlast hv (renders_render v)
  · have hnone : ∀ v, ¬ w.EndsWith v := fun v hv => hlast ⟨v, hv⟩
    rw [lastResult_of_none hnone]
    exact .all (fun v hv => absurd hv (hnone v)) w.tellsAll_allLines

/-- **The last result tells what there is to tell**, of every workspace whose last output is not a
mapping without members, or in which no output shows anything.  Where the last output is such a mapping
the last result is blank. -/
theorem last_result_tells_iff (w : Workspace) :
    (∃ text, w.Tells text ∧ ∀ other, w.Tells other → other = text) ∧
      (w.Tells w.lastResult ↔
        ¬ (w.EndsWith (.object []) ∧ ∃ b ∈ w.outputs, ¬ ShowsNothing b.2)) ∧
      (w.EndsWith (.object []) → w.lastResult = "") := by
  refine ⟨?unique, ⟨?told, ?tells⟩, lastResult_of_object⟩
  case unique =>
    obtain ⟨text, htext⟩ := w.exists_tells
    exact ⟨text, htext, fun other hother => hother.unique htext⟩
  case told =>
    rintro htells ⟨hlast, b, hb, hshows⟩
    rw [lastResult_of_object hlast] at htells
    have hall : w.allLines = "" := (hlast.tells .object w.tellsAll_allLines).unique htells
    exact hshows (w.allLines_eq_empty_iff.mp hall b hb)
  case tells =>
    intro hnot
    by_cases hlast : w.EndsWith (.object [])
    · -- nothing is to be told, and the blank text is what all outputs come to
      have hall : w.allLines = "" := w.allLines_eq_empty_iff.mpr fun b hb =>
        Decidable.not_not.mp fun hshows => hnot ⟨hlast, b, hb, hshows⟩
      rw [lastResult_of_object hlast, ← hall]
      exact hlast.tells .object w.tellsAll_allLines
    · exact tells_lastResult hlast

/-- A text, and a last output that is `null`. -/
def nullLast : Workspace :=
  ⟨[], [("a", .text "x"), ("b", .null)], some "b"⟩

theorem last_result_tells_iff_of_nullLast :
    nullLast.Tells nullLast.lastResult ∧ nullLast.lastResult = "a: x\n" := by
  have hnot : ¬ nullLast.EndsWith (.object []) := by decide
  exact ⟨nullLast.last_result_tells_iff.2.1.mpr fun h => hnot h.1, by decide +kernel⟩

end Workspace

/-- A step that shows its input, one that comes to a mapping without members, and one that is
skipped. -/
def silentLast : String :=
  "- name: a\n  toolname: t\n  input:\n    q: kept\n- name: b\n  toolname: t\n  dependency: a\n" ++
    "- name: c\n  toolname: t\n  dependency: b\n  activate: 1 == 2\n"

/-- What a run of it comes to: the last output, all lines and the answer. -/
theorem runs_silentLast : ((prepare echoing .empty silentLast).toOption.map fun s =>
    let t := sequential echoing s
    let w := t.state.workspace
    (t.outcome.isOk, decide (w.EndsWith (.object [])), w.allLines, t.state.result none)) =
      some (true, true, "a: \x7b\"q\":\"kept\"\x7d\n", "") := by
  decide +kernel

/-- **The answer of a run is blank though a step has something to show**, if the last one comes to a
mapping without members and a sink is skipped. -/
theorem answer_is_blank_of_silentLast : ∃ s, prepare echoing .empty silentLast = .ok s ∧
    (sequential echoing s).outcome = .ok () ∧ (sequential echoing s).state.result none = "" ∧
    (sequential echoing s).state.workspace.Tells "a: \x7b\"q\":\"kept\"\x7d\n" ∧
    ¬ (sequential echoing s).state.workspace.Tells
      (sequential echoing s).state.workspace.lastResult := by
  obtain ⟨s, hs, hruns⟩ := exists_ok_of_map runs_silentLast
  simp only [Prod.mk.injEq] at hruns
  obtain ⟨hok, hends, hall, hanswer⟩ := hruns
  refine ⟨s, hs, eq_ok_of_isOk hok, hanswer, ?_⟩
  generalize (sequential echoing s).state.workspace = w at hends hall
  have hlast : w.EndsWith (.object []) := of_decide_eq_true hends
  have hlines := w.tellsAll_allLines
  rw [hall] at hlines
  have htells := hlast.tells .object hlines
  refine ⟨htells, fun hblank => ?_⟩
  rw [Workspace.lastResult_of_object hlast] at hblank
  exact absurd (htells.unique hblank) (by decide)

end Runbook.Run
