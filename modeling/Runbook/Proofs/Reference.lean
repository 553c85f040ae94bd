import Runbook.Plan.Step
import Runbook.Reference

/-!
# What substitution reads

Replacing the references of a text reads the outputs of the steps that they name, and nothing else of
the bindings: neither other outputs nor the order in which outputs were written.  The same holds of
values, whose texts are searched one by one.
-/

namespace Runbook

namespace Reference
variable {outputs others : Bindings}

theorem textIn_congr {r : Reference} (h : outputs.get? r.step = others.get? r.step) :
    r.textIn outputs = r.textIn others := by
  unfold textIn
  rw [h]

theorem resolve_segments_congr (parts : List Segment)
    (h : ∀ r ∈ ofSegments parts, outputs.get? r.step = others.get? r.step) :
    parts.flatMap (Segment.resolve outputs) = parts.flatMap (Segment.resolve others) := by
  induction parts with
  | nil => rfl
  | cons part rest ih =>
    rw [List.flatMap_cons, List.flatMap_cons]
    cases part with
    | plain c =>
      have hrest : ∀ r ∈ ofSegments rest, outputs.get? r.step = others.get? r.step := h
      rw [ih hrest]
      rfl
    | body cs =>
      obtain ⟨hfirst, hrest⟩ := List.forall_mem_cons.mp h
      have hpart : Segment.resolve outputs (.body cs) = Segment.resolve others (.body cs) :=
        congrArg String.toList (textIn_congr hfirst)
      rw [hpart, ih hrest]

/-- **A text becomes the same** for outputs that agree on what it refers to. -/
theorem substitute_congr {text : String}
    (h : ∀ r ∈ inText text, outputs.get? r.step = others.get? r.step) :
    substitute outputs text = substitute others text := by
  have hresolve : resolve outputs text.toList = resolve others text.toList :=
    resolve_segments_congr (segments text.toList) h
  unfold substitute
  rw [hresolve]

mutual

/-- **A value becomes the same** for outputs that agree on what its texts refer to. -/
theorem substituteValue_congr (v : Json)
    (h : ∀ r ∈ inValue v, outputs.get? r.step = others.get? r.step) :
    substituteValue outputs v = substituteValue others v :=
  match v with
  | .null => rfl
  | .boolean _ => rfl
  | .number _ => rfl
  | .text _ => congrArg Json.text (substitute_congr h)
  | .array items => congrArg Json.array (substituteItems_congr items h)
  | .object members => congrArg Json.object (substituteMembers_congr members h)

theorem substituteItems_congr (items : List Json)
    (h : ∀ r ∈ inItems items, outputs.get? r.step = others.get? r.step) :
    substituteItems outputs items = substituteItems others items :=
  match items with
  | [] => rfl
  | v :: rest => by
    obtain ⟨hfirst, hrest⟩ := List.forall_mem_append.mp h
    show substituteValue outputs v :: substituteItems outputs rest = _
    rw [substituteValue_congr v hfirst, substituteItems_congr rest hrest]
    rfl

theorem substituteMembers_congr (members : List (String × Json))
    (h : ∀ r ∈ inMembers members, outputs.get? r.step = others.get? r.step) :
    substituteMembers outputs members = substituteMembers others members :=
  match members with
  | [] => rfl
  | (name, v) :: rest => by
    obtain ⟨hfirst, hrest⟩ := List.forall_mem_append.mp h
    show (name, substituteValue outputs v) :: substituteMembers outputs rest = _
    rw [substituteValue_congr v hfirst, substituteMembers_congr rest hrest]
    rfl

end

end Reference

/-- **The references of a step**: those in the texts of its input and in its guard. -/
def Plan.Step.references (step : Plan.Step) : List Reference :=
  Reference.inMembers step.input ++ (step.guard.map Reference.inText).getD []

end Runbook
