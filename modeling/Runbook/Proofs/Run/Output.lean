import Runbook.Proofs.Json.Distinct
import Runbook.Proofs.Json.RoundTrip
import Runbook.Proofs.Json.Shorter
import Runbook.Proofs.Substitution
import Runbook.Run.Trace
import Mathlib.Logic.Function.Iterate

/-!
# Outputs as texts

A text that a tool answers with is read as JSON if it can be.  So an output that was put into a text
comes out of it again (`Json.Portable.read?_compact`), and a tool that answers with its input hands
on the output of another step (`completes_with_referred`).

Reading takes one pair of quotes away.  An answer that spells a text that spells a value is stored
as the inner text, which would be that value the next time; any other output stays what it is
(`completes_again_iff`).
-/

namespace Runbook

/-! ## Values that a text can carry -/

namespace Json

mutual

/-- **The numbers of a value**, from left to right. -/
def numbers : Json → List Number
  | number n => [n]
  | array items => itemsNumbers items
  | object members => membersNumbers members
  | _ => []

/-- The numbers of these items. -/
def itemsNumbers : List Json → List Number
  | [] => []
  | v :: rest => v.numbers ++ itemsNumbers rest

/-- The numbers of the values of these members. -/
def membersNumbers : List (String × Json) → List Number
  | [] => []
  | (_, v) :: rest => v.numbers ++ membersNumbers rest

end

mutual

theorem legible_of_numbers : (v : Json) → (∀ n ∈ v.numbers, n.Legible) → v.Legible
  | null, _ => trivial
  | boolean _, _ => trivial
  | number n, h => h n List.mem_cons_self
  | text _, _ => trivial
  | array items, h => itemsLegible_of_numbers items h
  | object members, h => membersLegible_of_numbers members h

theorem itemsLegible_of_numbers : (items : List Json) →
    (∀ n ∈ itemsNumbers items, n.Legible) → ItemsLegible items
  | [], _ => trivial
  | v :: rest, h =>
    have ⟨hfirst, hrest⟩ := List.forall_mem_append.mp h
    ⟨legible_of_numbers v hfirst, itemsLegible_of_numbers rest hrest⟩

theorem membersLegible_of_numbers : (members : List (String × Json)) →
    (∀ n ∈ membersNumbers members, n.Legible) → MembersLegible members
  | [], _ => trivial
  | (_, v) :: rest, h =>
    have ⟨hfirst, hrest⟩ := List.forall_mem_append.mp h
    ⟨legible_of_numbers v hfirst, membersLegible_of_numbers rest hrest⟩

end

/-- **A value that can be put into a text and read from it.**  A text stands for itself there, and
`null` for nothing. -/
structure Portable (v : Json) : Prop where
  ne_text : ∀ s, v ≠ text s
  ne_null : v ≠ null
  /-- Its numbers are integers of 64 bits, signed or unsigned. -/
  integers : ∀ n ∈ v.numbers, ∃ k, n = .integer k ∧ Number.fits k = true
  /-- Arrays and objects enclose each other as often as a reader follows. -/
  nesting_le : v.nesting ≤ 127
  /-- No object repeats a name. -/
  distinct : v.Distinct

namespace Portable
variable {v : Json}

theorem legible (h : v.Portable) : v.Legible := by
  refine legible_of_numbers v fun n hn => ?_
  obtain ⟨k, rfl, hk⟩ := h.integers n hn
  exact Number.legible_integer hk

theorem display_eq (h : v.Portable) : v.display = v.compact := by
  cases v with
  | null => exact absurd rfl h.ne_null
  | text s => exact absurd rfl (h.ne_text s)
  | _ => rfl

/-- **It is read from its text.** -/
theorem read?_compact (h : v.Portable) : read? v.compact = some v := by
  rw [read?, compact, String.toList_ofList, document?_chars h.legible h.nesting_le]
  exact congrArg some (Distinct.merged_eq v h.distinct)

/-- Its text does not begin like a reference. -/
theorem chars_ne_dollar (h : v.Portable) (rest : List Char) : v.chars ≠ '$' :: rest := by
  intro heq
  have hlegible := h.legible
  match v, h, hlegible, heq with
  | null, h, _, _ => exact h.ne_null rfl
  | text s, h, _, _ => exact h.ne_text s rfl
  | boolean true, _, _, heq => cases heq
  | boolean false, _, _, heq => cases heq
  | array [], _, _, heq => cases heq
  | array (_ :: _), _, _, heq => cases heq
  | object [], _, _, heq => cases heq
  | object ((_, _) :: _), _, _, heq => cases heq
  | number n, _, hlegible, heq =>
    have hchars : n.chars = '$' :: rest := heq
    have hdollar := hlegible.isNumberChar_of_mem '$' (hchars ▸ List.mem_cons_self)
    cases hdollar

end Portable

end Json

namespace Run
open Reference

theorem normalize_of_read? {s : String} {v : Json} (h : Json.read? s = some v) :
    normalize (.text s) = v := by
  rw [normalize, h]
  rfl

theorem normalize_of_read?_eq_none {s : String} (h : Json.read? s = none) :
    normalize (.text s) = .text s := by
  rw [normalize, h]
  rfl

theorem normalize_of_ne_text {v : Json} (h : ∀ s, v ≠ .text s) : normalize v = v := by
  cases v with
  | text s => exact absurd rfl (h s)
  | _ => rfl

/-- **No output repeats a name**, if no answer of a tool does. -/
theorem distinct_normalize {v : Json} (h : v.Distinct) : (normalize v).Distinct := by
  cases v with
  | text s =>
    cases hread : Json.read? s with
    | none =>
      rw [normalize_of_read?_eq_none hread]
      exact h
    | some w =>
      rw [normalize_of_read? hread]
      exact Json.distinct_of_read? hread
  | _ => exact h

/-! ## Handing an output on -/

/-- **A name that a reference can spell**: without a point, a brace or a caret. -/
def IsName (name : String) : Prop :=
  '.' ∉ name.toList ∧ IsBody name.toList

instance (name : String) : Decidable (IsName name) :=
  inferInstanceAs (Decidable (_ ∧ _))

/-- The action, completed by a tool that answers with the text of a reference. -/
def Pending.echo (action : Pending) (outputs : Bindings) (body : List Char) : Completed :=
  action.completeWith (.text (substitute outputs (String.ofList (written body))))

theorem echo_eq {outputs : Bindings} {action : Pending} {body : List Char} {v : Json}
    (hv : v.Portable) (hbody : IsBody body) (htext : (ofBody body).textIn outputs = v.display) :
    action.echo outputs body = ⟨action.step, v, action.entry v⟩ := by
  rw [hv.display_eq] at htext
  have hhead : ∀ rest, ((ofBody body).textIn outputs).toList ≠ '$' :: rest := by
    rw [htext, Json.compact, String.toList_ofList]
    exact hv.chars_ne_dollar
  have hnormal : normalize (.text v.compact) = v := normalize_of_read? hv.read?_compact
  rw [Pending.echo, substitute_written outputs hbody hhead, htext, Pending.completeWith, hnormal]

theorem textIn_whole {outputs : Bindings} {step : String} {v : Json} (hstep : '.' ∉ step.toList)
    (hv : v ≠ .null) (h : outputs.get? step = some v) :
    (ofBody step.toList).textIn outputs = v.display := by
  rw [ofBody_of_not_mem hstep, String.ofList_toList, textIn, h]
  cases v with
  | null => exact absurd rfl hv
  | _ => rfl

theorem textIn_field {outputs : Bindings} {step field : String} {v : Json}
    {members : List (String × Json)} (hstep : '.' ∉ step.toList) (hfield : '.' ∉ field.toList)
    (h : outputs.get? step = some (.object members)) (hv : Table.get? members field = some v) :
    (ofBody (step.toList ++ '.' :: field.toList)).textIn outputs = v.display := by
  rw [ofBody_append hstep, splitAtPoint_of_not_mem hfield, String.ofList_toList,
    String.ofList_toList, textIn, h]
  dsimp only
  rw [hv]

/-- **An output passes through a text.**  A tool that answers with the text of a reference to an
output, or to a field of one, gives the same value for an output again. -/
theorem completes_with_referred (w : Workspace) (action : Pending) {a f : String} {v : Json}
    (ha : IsName a) (hf : IsName f) (hv : v.Portable) :
    (w.outputs.get? a = some v →
        (action.echo w.outputs a.toList).output = v ∧
          (action.echo w.outputs a.toList).entry.output = v) ∧
      ∀ members, w.outputs.get? a = some (.object members) → Table.get? members f = some v →
        (action.echo w.outputs (a.toList ++ '.' :: f.toList)).output = v ∧
          (action.echo w.outputs (a.toList ++ '.' :: f.toList)).entry.output = v := by
  refine ⟨fun hoption => ?_, fun members hobject hmember => ?_⟩
  · rw [echo_eq hv ha.2 (textIn_whole ha.1 hv.ne_null hoption)]
    exact ⟨rfl, rfl⟩
  · have hbody : IsBody (a.toList ++ '.' :: f.toList) :=
      List.forall_mem_append.mpr ⟨ha.2, isBody_cons.mpr ⟨by decide, hf.2⟩⟩
    rw [echo_eq hv hbody (textIn_field ha.1 hf.1 hobject hmember)]
    exact ⟨rfl, rfl⟩

/-- An array with a negative number, a control and what looks like a reference. -/
def mixedItems : Json :=
  .array [.ofInt (-3), .boolean true, .null, .text "$\x7bb\x7d\x01\"\\"]

/-- An object with a member without a name and a number that only fits an unsigned word. -/
def nestedOutput : Json :=
  .object [("f", mixedItems), ("", .object []), ("n", .ofNat 18446744073709551615)]

theorem portable_mixedItems : mixedItems.Portable where
  ne_text := nofun
  ne_null := nofun
  integers n hn := ⟨-3, List.mem_singleton.mp hn, rfl⟩
  nesting_le := by decide
  distinct := ⟨trivial, trivial, trivial, trivial, trivial⟩

theorem portable_nestedOutput : nestedOutput.Portable where
  ne_text := nofun
  ne_null := nofun
  integers n hn := by
    rcases List.mem_pair.mp hn with rfl | rfl
    · exact ⟨-3, rfl, rfl⟩
    · exact ⟨18446744073709551615, rfl, rfl⟩
  nesting_le := by decide
  distinct := ⟨by decide, portable_mixedItems.distinct, ⟨List.nodup_nil, trivial⟩, trivial, trivial⟩

/-- A step that hands an output of `a` on. -/
def handingOn : Pending where
  step := "b"
  ordinal := none
  tool := "t"
  input := []
  dependencies := ["a"]
  guard := none
  prompt := ""

theorem completes_with_referred_of_nestedOutput :
    (handingOn.echo [("a", nestedOutput)] ['a']).output = nestedOutput ∧
      (handingOn.echo [("a", nestedOutput)] ['a', '.', 'f']).output = mixedItems := by
  have ha : IsName "a" := by decide
  have hf : IsName "f" := by decide
  let w : Workspace := ⟨[], [("a", nestedOutput)], some "a"⟩
  obtain ⟨hwhole, -⟩ := completes_with_referred w handingOn ha hf portable_nestedOutput
  obtain ⟨-, hfield⟩ := completes_with_referred w handingOn ha hf portable_mixedItems
  exact ⟨(hwhole rfl).1, (hfield _ rfl rfl).1⟩

/-! ## Completing with an output again -/

theorem normalize_text_iff {s : String} :
    normalize (.text s) = .text s ↔ Json.read? s = none := by
  refine ⟨fun h => ?_, normalize_of_read?_eq_none⟩
  cases hread : Json.read? s with
  | none => rfl
  | some v =>
    rw [normalize_of_read? hread] at h
    have := Json.length_of_read? (h ▸ hread)
    omega

/-- **The text spells a text that spells a value.** -/
def SpellsTwice (answer : Json) : Prop :=
  ∃ s t v, answer = .text s ∧ Json.read? s = some (.text t) ∧ Json.read? t = some v

/-- An output is a text that was read, or the answer itself, which spells no value. -/
theorem eq_text_of_normalize {answer : Json} {t : String} (h : normalize answer = .text t) :
    (∃ s, answer = .text s ∧ Json.read? s = some (.text t)) ∨ Json.read? t = none := by
  cases answer with
  | text s =>
    cases hread : Json.read? s with
    | none =>
      rw [normalize_of_read?_eq_none hread] at h
      exact Or.inr (Json.text.inj h ▸ hread)
    | some v =>
      rw [normalize_of_read? hread] at h
      exact Or.inl ⟨s, rfl, h ▸ hread⟩
  | _ => cases h

theorem normalize_normalize_iff (answer : Json) :
    normalize (normalize answer) = normalize answer ↔ ¬ SpellsTwice answer := by
  constructor
  · rintro h ⟨s, t, v, rfl, hs, ht⟩
    rw [normalize_of_read? hs, normalize_text_iff, ht] at h
    cases h
  · intro hnot
    by_cases htext : ∃ t, normalize answer = .text t
    · obtain ⟨t, ht⟩ := htext
      rw [ht, normalize_text_iff]
      rcases eq_text_of_normalize ht with ⟨s, rfl, hs⟩ | hnone
      · exact Option.eq_none_iff_forall_ne_some.mpr fun v hv => hnot ⟨s, t, v, rfl, hs, hv⟩
      · exact hnone
    · exact normalize_of_ne_text fun t ht => htext ⟨t, ht⟩

/-- **When an output stays what it is.**  Completing an action with the output that is stored for an
answer stores the same again, unless the answer is a text that spells a text that spells a value. -/
theorem completes_again_iff (action : Pending) (answer : Json) :
    action.completeWith (action.completeWith answer).output = action.completeWith answer ↔
      ¬ SpellsTwice answer := by
  rw [← normalize_normalize_iff]
  refine ⟨fun h => congrArg Completed.output h, fun h => ?_⟩
  show (⟨action.step, normalize (normalize answer), action.entry (normalize (normalize answer))⟩ :
    Completed) = _
  rw [h]
  rfl

/-- A one between quotes is stored as a text, and that text as a number. -/
theorem completes_again_differs :
    normalize (.text "\"1\"") = .text "1" ∧ normalize (.text "1") = .ofInt 1 ∧
      normalize (normalize (.text "\"1\"")) ≠ normalize (.text "\"1\"") := by
  have honce : normalize (.text "\"1\"") = .text "1" := rfl
  have htwice : normalize (.text "1") = .ofInt 1 := rfl
  refine ⟨honce, htwice, ?_⟩
  rw [honce, htwice]
  exact nofun

/-- **Reading over and over comes to an end**: each reading that gives a text takes two characters,
so half as many readings as the answer has characters, and one more, give what stays. -/
theorem normalize_iterate_length (s : String) :
    normalize (normalize^[s.length / 2 + 1] (.text s)) =
      normalize^[s.length / 2 + 1] (.text s) := by
  induction hlength : s.length using Nat.strongRecOn generalizing s with
  | ind n ih =>
    cases hread : Json.read? s with
    | none =>
      have hstays := normalize_of_read?_eq_none hread
      rw [Function.iterate_fixed hstays, hstays]
    | some v =>
      rw [Function.iterate_succ_apply, normalize_of_read? hread]
      by_cases htext : ∃ t, v = .text t
      · obtain ⟨t, rfl⟩ := htext
        have hshorter := Json.length_of_read? hread
        obtain ⟨k, hk⟩ : ∃ k, n / 2 = k + (t.length / 2 + 1) :=
          ⟨n / 2 - (t.length / 2 + 1), by omega⟩
        have hstays := ih t.length (by omega) t rfl
        rw [hk, Function.iterate_add_apply, Function.iterate_fixed hstays, hstays]
      · have hstays := normalize_of_ne_text fun t ht => htext ⟨t, ht⟩
        rw [Function.iterate_fixed hstays, hstays]

end Run

end Runbook
