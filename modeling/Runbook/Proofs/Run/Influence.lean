import Runbook.Proofs.Reference
import Runbook.Run.Frontier

/-!
# What an output can influence

The references that are found in a value are those that are replaced in it.  So two workspaces that
agree on the steps that are referred to make the same of the value (`substituteValue_congr`); and a
step that is referred to counts, for there are workspaces that differ in its output alone and do not
(`differs_marked`).  Neither the history nor the step that ran last is looked at.
-/

namespace Runbook

namespace Reference
variable {outputs others : Bindings}

/-! ## Texts tell the outputs apart -/

theorem eq_of_flatMap_eq {α β : Type} {f g : α → List β} {l : List α}
    (hlength : ∀ a ∈ l, (f a).length = (g a).length) (h : l.flatMap f = l.flatMap g) :
    ∀ a ∈ l, f a = g a := by
  induction l with
  | nil => nofun
  | cons a rest ih =>
    rw [List.forall_mem_cons] at hlength
    rw [List.flatMap_cons, List.flatMap_cons] at h
    obtain ⟨hfirst, hrest⟩ := List.append_inj h hlength.1
    exact List.forall_mem_cons.mpr ⟨hfirst, ih hlength.2 hrest⟩

/-- Every reference stands for texts of one length in both. -/
def SameLengths (outputs others : Bindings) : Prop :=
  ∀ r : Reference, (r.textIn outputs).length = (r.textIn others).length

theorem mem_ofSegments {r : Reference} {parts : List Segment} :
    r ∈ ofSegments parts ↔ ∃ cs, .body cs ∈ parts ∧ ofBody cs = r := by
  induction parts with
  | nil => simp [ofSegments]
  | cons part rest ih =>
    cases part with
    | plain c => simp [ofSegments, ih]
    | body cs => simp [ofSegments, ih, or_and_right, exists_or, eq_comm]

theorem length_resolve_part (hlength : SameLengths outputs others) (part : Segment) :
    (part.resolve outputs).length = (part.resolve others).length := by
  cases part with
  | plain c => rfl
  | body cs =>
    show ((ofBody cs).textIn outputs).toList.length = ((ofBody cs).textIn others).toList.length
    rw [String.length_toList, String.length_toList]
    exact hlength (ofBody cs)

theorem textIn_eq_of_resolve_eq (hlength : SameLengths outputs others) {cs : List Char}
    (h : resolve outputs cs = resolve others cs) :
    ∀ r ∈ ofSegments (segments cs), r.textIn outputs = r.textIn others := by
  have hparts := eq_of_flatMap_eq (fun part _ => length_resolve_part hlength part) h
  intro r hr
  obtain ⟨body, hbody, rfl⟩ := mem_ofSegments.mp hr
  exact String.toList_inj.mp (hparts (.body body) hbody)

theorem toList_substitute (bindings : Bindings) (text : String) :
    (substitute bindings text).toList = resolve bindings text.toList ++
      if isUnresolved text.toList (resolve bindings text.toList) then unresolvedHint.toList
      else [] := by
  unfold substitute
  dsimp only
  split <;> simp

/-- A hint after one of two results cannot make them the same: it would make that one longer. -/
theorem textIn_eq_of_substitute_eq (hlength : SameLengths outputs others) {text : String}
    (h : substitute outputs text = substitute others text) :
    ∀ r ∈ inText text, r.textIn outputs = r.textIn others := by
  have hresolve : (resolve outputs text.toList).length = (resolve others text.toList).length := by
    simp only [resolve, List.length_flatMap, length_resolve_part hlength]
  have htext := congrArg String.toList h
  rw [toList_substitute, toList_substitute] at htext
  exact textIn_eq_of_resolve_eq hlength (List.append_inj_left htext hresolve)

mutual

/-- **Values that become the same** give every reference in their texts the same text. -/
theorem textIn_eq_of_substituteValue_eq (hlength : SameLengths outputs others) : (v : Json) →
    substituteValue outputs v = substituteValue others v →
    ∀ r ∈ inValue v, r.textIn outputs = r.textIn others
  | .null, _ => nofun
  | .boolean _, _ => nofun
  | .number _, _ => nofun
  | .text _, h => textIn_eq_of_substitute_eq hlength (Json.text.inj h)
  | .array items, h => textIn_eq_of_substituteItems_eq hlength items (Json.array.inj h)
  | .object members, h => textIn_eq_of_substituteMembers_eq hlength members (Json.object.inj h)

theorem textIn_eq_of_substituteItems_eq (hlength : SameLengths outputs others) :
    (items : List Json) → substituteItems outputs items = substituteItems others items →
    ∀ r ∈ inItems items, r.textIn outputs = r.textIn others
  | [], _ => nofun
  | v :: rest, h => by
    obtain ⟨hfirst, hrest⟩ := List.cons.inj h
    exact List.forall_mem_append.mpr ⟨textIn_eq_of_substituteValue_eq hlength v hfirst,
      textIn_eq_of_substituteItems_eq hlength rest hrest⟩

theorem textIn_eq_of_substituteMembers_eq (hlength : SameLengths outputs others) :
    (members : List (String × Json)) →
    substituteMembers outputs members = substituteMembers others members →
    ∀ r ∈ inMembers members, r.textIn outputs = r.textIn others
  | [], _ => nofun
  | (_, v) :: rest, h => by
    obtain ⟨hfirst, hrest⟩ := List.cons.inj h
    exact List.forall_mem_append.mpr
      ⟨textIn_eq_of_substituteValue_eq hlength v (Prod.mk.inj hfirst).2,
        textIn_eq_of_substituteMembers_eq hlength rest hrest⟩

end

/-! ## Outputs that differ where a reference looks -/

/-- The step that is referred to has an output with this text where the reference looks; no other
step has one. -/
def marked (r : Reference) (mark : Char) : Bindings :=
  [(r.step, match r.field with
    | none => .text (String.singleton mark)
    | some field => .object [(field, .text (String.singleton mark))])]

theorem get?_marked_of_ne {r : Reference} {mark : Char} {name : String} (h : name ≠ r.step) :
    (marked r mark).get? name = none :=
  if_neg (Ne.symm h)

theorem textIn_marked (r : Reference) (mark : Char) :
    r.textIn (marked r mark) = String.singleton mark := by
  obtain ⟨step, field⟩ := r
  cases field <;> simp [textIn, marked, Table.get?, Json.display]

theorem sameLengths_marked (r : Reference) : SameLengths (marked r 'a') (marked r 'b') := by
  have hone : (String.singleton 'a').length = (String.singleton 'b').length := rfl
  intro other
  obtain ⟨step, field⟩ := r
  by_cases hstep : step = other.step
  · cases field with
    | none =>
      cases hother : other.field with
      | none => simpa [textIn, marked, Table.get?, hstep, hother, Json.display] using hone
      | some name => simp [textIn, marked, Table.get?, hstep, hother]
    | some field =>
      cases hother : other.field with
      | none =>
        have hquoted : (Json.quoteChars ['a']).length = (Json.quoteChars ['b']).length := rfl
        simp [textIn, marked, Table.get?, hstep, hother, Json.display, Json.compact, Json.chars,
          hquoted]
      | some name =>
        by_cases hname : field = name
        · simpa [textIn, marked, Table.get?, hstep, hother, hname, Json.display] using hone
        · simp [textIn, marked, Table.get?, hstep, hother, hname]
  · simp [textIn, marked, Table.get?, hstep]

/-- **A reference counts**: outputs that differ where it looks make the value differ. -/
theorem differs_marked {v : Json} {r : Reference} (h : r ∈ inValue v) :
    substituteValue (marked r 'a') v ≠ substituteValue (marked r 'b') v := by
  intro hsame
  have htext := textIn_eq_of_substituteValue_eq (sameLengths_marked r) v hsame r h
  rw [textIn_marked, textIn_marked] at htext
  exact absurd htext (by decide)

end Reference

namespace Run
open Reference

/-- **Checking and running see the same references.**  What becomes of a value depends on the
outputs of the steps that are found in it, and a step is found in it just if its output can make a
difference, all others being equal.  So the input that a step is called with depends on the outputs
of the steps that it refers to, and on nothing else of the state. -/
theorem substitution_reads_references (v : Json) (step : Plan.Step) :
    (∀ w w' : Workspace, (∀ r ∈ inValue v, w.outputs.get? r.step = w'.outputs.get? r.step) →
        substituteValue w.outputs v = substituteValue w'.outputs v) ∧
      (∀ name, (∃ r ∈ inValue v, r.step = name) ↔
        ∃ w w' : Workspace, (∀ other ≠ name, w.outputs.get? other = w'.outputs.get? other) ∧
          substituteValue w.outputs v ≠ substituteValue w'.outputs v) ∧
      ∀ s s' : State, (∀ r ∈ inMembers step.input,
          s.workspace.outputs.get? r.step = s'.workspace.outputs.get? r.step) →
        (s.action step).input = (s'.action step).input := by
  refine ⟨fun w w' h => substituteValue_congr v h, fun name => ⟨?_, ?_⟩,
    fun s s' h => substituteMembers_congr step.input h⟩
  · rintro ⟨r, hr, rfl⟩
    refine ⟨⟨[], marked r 'a', none⟩, ⟨[], marked r 'b', none⟩, fun other hother => ?_,
      differs_marked hr⟩
    rw [get?_marked_of_ne hother, get?_marked_of_ne hother]
  · rintro ⟨w, w', hothers, hdiffers⟩
    refine Classical.byContradiction fun hnone => hdiffers ?_
    exact substituteValue_congr v fun r hr => hothers r.step fun hname => hnone ⟨r, hr, hname⟩

/-- A field of `a` and all of `b`, in the items of an array. -/
def fieldAndWhole : Json :=
  .array [.text "$\x7ba.x\x7d and $\x7bb\x7d", .null]

theorem inValue_fieldAndWhole : inValue fieldAndWhole = [⟨"a", some "x"⟩, ⟨"b", none⟩] := by
  decide +kernel

/-- Outputs that were written in another order, next to another one and with another history, are
the same to a value that refers to two of them; one of these two is not. -/
theorem substitution_reads_references_of_fieldAndWhole :
    substituteValue [("a", .object [("x", .ofInt 1)]), ("b", .ofInt 2)] fieldAndWhole =
        substituteValue [("b", .ofInt 2), ("c", .ofInt 3), ("a", .object [("x", .ofInt 1)])]
          fieldAndWhole ∧
      ∃ w w' : Workspace, (∀ other ≠ "b", w.outputs.get? other = w'.outputs.get? other) ∧
        substituteValue w.outputs fieldAndWhole ≠ substituteValue w'.outputs fieldAndWhole := by
  obtain ⟨hsame, hcounts, -⟩ :=
    substitution_reads_references fieldAndWhole
      ⟨"c", none, "t", [("q", fieldAndWhole)], none, ∅, none, "", none⟩
  let entry : Entry := ⟨"c", [], [], .ofInt 3, none, ""⟩
  refine ⟨hsame ⟨[], _, none⟩ ⟨[entry], _, some "c"⟩ ?_, (hcounts "b").mp ⟨⟨"b", none⟩, ?_, rfl⟩⟩
  · rw [inValue_fieldAndWhole]
    simp only [List.forall_mem_cons]
    exact ⟨rfl, rfl, List.forall_mem_nil _⟩
  · rw [inValue_fieldAndWhole]
    exact List.mem_cons_of_mem _ List.mem_cons_self

end Run

end Runbook
