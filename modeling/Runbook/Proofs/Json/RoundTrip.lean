import Runbook.Json.Reader
import Runbook.Proofs.Json.Tokens

/-!
# Reading the text of a JSON value gives the value

The tokens of a value are read as the draft of the value (`run_tokens`), by recursion over the
value: whatever arrays and objects are open, a value is handed to the innermost of them.  A value may
be enclosed by as many arrays and objects as the reader follows, and its numbers have to be read
from their texts (`document?_chars`).
-/

namespace Runbook.Json

open Token

/-! ## Drafts and nesting of a value -/

mutual

/-- The draft of a value, all parts of which mean something. -/
def draft : Json → Draft
  | array items => .array (itemDrafts items)
  | object members => .object (memberDrafts members)
  | v => .leaf (some v)

/-- The drafts of the items of an array. -/
def itemDrafts : List Json → List Draft
  | [] => []
  | v :: rest => v.draft :: itemDrafts rest

/-- The members of an object, each with the draft of its value. -/
def memberDrafts : List (String × Json) → List (Option String × Draft)
  | [] => []
  | (k, v) :: rest => (some k, v.draft) :: memberDrafts rest

end

mutual

/-- **The most arrays and objects that enclose each other** in a value. -/
def nesting : Json → Nat
  | array items => itemsNesting items + 1
  | object members => membersNesting members + 1
  | _ => 0

/-- The most arrays and objects that enclose each other in one of these items. -/
def itemsNesting : List Json → Nat
  | [] => 0
  | v :: rest => max v.nesting (itemsNesting rest)

/-- The most arrays and objects that enclose each other in one of these members. -/
def membersNesting : List (String × Json) → Nat
  | [] => 0
  | (_, v) :: rest => max v.nesting (membersNesting rest)

end

/-! ## Reading the tokens -/

namespace Reading

theorem run_cons {r r' : Reading} {token : Token} (h : r.step token = some r')
    (rest : List Token) : r.run (token :: rest) = r'.run rest := by
  rw [run, h]
  rfl

/-- What stands in fewer frames than the reader follows keeps its meaning. -/
theorem nested_eq {outer : List Frame} (h : outer.length < maxNesting) (v : Draft) :
    nested outer v = v := by
  have hnone : outer[maxNesting - 1]? = none := List.getElem?_eq_none (Nat.le_sub_one_of_lt h)
  unfold nested
  rw [hnone]
  rfl

/-- A first item is read as any value. -/
theorem run_firstItem (v : Json) (frames : List Frame) (rest : List Token) :
    run ⟨frames, .firstItem⟩ (v.tokens ++ rest) = run ⟨frames, .value⟩ (v.tokens ++ rest) := by
  match v with
  | .null | .boolean _ | .number _ | .text _ | .array [] | .array (_ :: _) | .object []
  | .object ((_, _) :: _) => rfl

/-- The reading goes on after a value. -/
def after (frames : List Frame) (v : Draft) (rest : List Token) : Option Reading :=
  (supply frames v).bind fun r => r.run rest

end Reading

open Reading

mutual

/-- **The tokens of a value are read as its draft.** -/
theorem run_tokens : (v : Json) → (frames : List Frame) → (rest : List Token) →
    frames.length + v.nesting ≤ maxNesting →
    run ⟨frames, .value⟩ (v.tokens ++ rest) = after frames v.draft rest
  | null, _, _, _ => rfl
  | boolean _, _, _, _ => rfl
  | number _, _, _, _ => rfl
  | text _, _, _, _ => rfl
  | array [], frames, rest, hn => by
    have hnested := nested_eq (show frames.length < maxNesting from hn) (.array [])
    show (supply frames (nested frames (.array []))).bind _ = _
    rw [hnested]
    rfl
  | array (v :: items), frames, rest, hn => by
    have hn : frames.length + (max v.nesting (itemsNesting items) + 1) ≤ maxNesting := hn
    have hv := run_tokens v (.array [] :: frames) (itemsTokens items ++ .closeArray :: rest)
      (by simp only [List.length_cons]; omega)
    have hitems := run_items items [v.draft] frames rest (by omega)
    have htokens : (array (v :: items)).tokens ++ rest =
        .openArray :: (v.tokens ++ (itemsTokens items ++ .closeArray :: rest)) := by
      simp [tokens]
    rw [htokens, run_cons rfl, run_firstItem, hv]
    exact hitems
  | object [], frames, rest, hn => by
    have hnested := nested_eq (show frames.length < maxNesting from hn) (.object [])
    show (supply frames (nested frames (.object []))).bind _ = _
    rw [hnested]
    rfl
  | object ((k, v) :: members), frames, rest, hn => by
    have hn : frames.length + (max v.nesting (membersNesting members) + 1) ≤ maxNesting := hn
    have hv := run_tokens v (.member [] (some k) :: frames)
      (membersTokens members ++ .closeObject :: rest) (by simp only [List.length_cons]; omega)
    have hmembers := run_members members [(some k, v.draft)] frames rest (by omega)
    have htokens : (object ((k, v) :: members)).tokens ++ rest = .openObject :: .text (some k) ::
        .colon :: (v.tokens ++ (membersTokens members ++ .closeObject :: rest)) := by
      simp [tokens]
    rw [htokens, run_cons rfl, run_cons rfl, run_cons rfl, hv]
    exact hmembers

theorem run_items : (items : List Json) → (done : List Draft) → (frames : List Frame) →
    (rest : List Token) → frames.length + 1 + itemsNesting items ≤ maxNesting →
    run ⟨.array done :: frames, .separator⟩ (itemsTokens items ++ .closeArray :: rest) =
      after frames (.array (done.reverse ++ itemDrafts items)) rest
  | [], done, frames, rest, hn => by
    have hnested := nested_eq (show frames.length < maxNesting from hn) (.array done.reverse)
    show (supply frames (nested frames (.array done.reverse))).bind _ = _
    rw [hnested, itemDrafts, List.append_nil]
    rfl
  | v :: items, done, frames, rest, hn => by
    have hn : frames.length + 1 + max v.nesting (itemsNesting items) ≤ maxNesting := hn
    have hv := run_tokens v (.array done :: frames) (itemsTokens items ++ .closeArray :: rest)
      (by simp only [List.length_cons]; omega)
    have hitems := run_items items (v.draft :: done) frames rest (by omega)
    have htokens : itemsTokens (v :: items) ++ .closeArray :: rest =
        .comma :: (v.tokens ++ (itemsTokens items ++ .closeArray :: rest)) := by
      simp [itemsTokens]
    rw [htokens, run_cons rfl, hv]
    rw [List.reverse_cons, List.append_assoc] at hitems
    exact hitems

theorem run_members : (members : List (String × Json)) →
    (done : List (Option String × Draft)) → (frames : List Frame) → (rest : List Token) →
    frames.length + 1 + membersNesting members ≤ maxNesting →
    run ⟨.object done :: frames, .separator⟩ (membersTokens members ++ .closeObject :: rest) =
      after frames (.object (done.reverse ++ memberDrafts members)) rest
  | [], done, frames, rest, hn => by
    have hnested := nested_eq (show frames.length < maxNesting from hn) (.object done.reverse)
    show (supply frames (nested frames (.object done.reverse))).bind _ = _
    rw [hnested, memberDrafts, List.append_nil]
    rfl
  | (k, v) :: members, done, frames, rest, hn => by
    have hn : frames.length + 1 + max v.nesting (membersNesting members) ≤ maxNesting := hn
    have hv := run_tokens v (.member done (some k) :: frames)
      (membersTokens members ++ .closeObject :: rest) (by simp only [List.length_cons]; omega)
    have hmembers := run_members members ((some k, v.draft) :: done) frames rest (by omega)
    have htokens : membersTokens ((k, v) :: members) ++ .closeObject :: rest =
        .comma :: .text (some k) :: .colon ::
          (v.tokens ++ (membersTokens members ++ .closeObject :: rest)) := by
      simp [membersTokens]
    rw [htokens, run_cons rfl, run_cons rfl, run_cons rfl, hv]
    rw [List.reverse_cons, List.append_assoc] at hmembers
    exact hmembers

end

/-! ## The whole text -/

mutual

theorem value?_draft : (v : Json) → v.draft.value? = some v
  | null => rfl
  | boolean _ => rfl
  | number _ => rfl
  | text _ => rfl
  | array items => by
    show (Draft.itemValues? (itemDrafts items)).map array = _
    rw [itemValues?_itemDrafts items]
    rfl
  | object members => by
    show (Draft.memberValues? (memberDrafts members)).map object = _
    rw [memberValues?_memberDrafts members]
    rfl

theorem itemValues?_itemDrafts : (items : List Json) →
    Draft.itemValues? (itemDrafts items) = some items
  | [] => rfl
  | v :: rest => by
    rw [itemDrafts, Draft.itemValues?, value?_draft v, itemValues?_itemDrafts rest]

theorem memberValues?_memberDrafts : (members : List (String × Json)) →
    Draft.memberValues? (memberDrafts members) = some members
  | [] => rfl
  | (k, v) :: rest => by
    simp only [memberDrafts, Draft.memberValues?, value?_draft v, memberValues?_memberDrafts rest]

end

theorem scan_eq {cs : List Char} {ts : List Token} (h : Scans cs ts) : scan cs = some ts :=
  h cs.length (Nat.le_refl _)

/-- **The text of a value is read as the value**, if it is nested no deeper than the reader follows
and its numbers are read from their texts. -/
theorem document?_chars {v : Json} (hv : v.Legible) (hn : v.nesting ≤ maxNesting) :
    document? v.chars = some v := by
  have hd : Delimited [] := trivial
  have hscan := scans_chars v hv hd .nil
  have hrun := run_tokens v [] [] (by simpa using hn)
  rw [List.append_nil, List.append_nil] at hscan
  rw [List.append_nil] at hrun
  have hdraft : Draft.ofText? v.chars = some v.draft := by
    unfold Draft.ofText? Draft.ofTokens? Reading.start
    rw [scan_eq hscan]
    show (run ⟨[], .value⟩ v.tokens).bind _ = _
    rw [hrun]
    rfl
  rw [document?, hdraft]
  exact value?_draft v

/-! ## Numbers that survive -/

/-- **The number is read again** from its text. -/
def Number.Survives (n : Number) : Prop :=
  document? n.chars = some (.number n)

theorem Number.Legible.survives {n : Number} (h : n.Legible) : n.Survives :=
  @document?_chars (.number n) h (Nat.zero_le _)

/-- What is spelled as a number but is none cannot be read. -/
theorem isNumber_of_document? {literal : List Char} {v : Json}
    (h : ∀ c ∈ literal, isNumberChar c = true) (hv : document? literal = some v) :
    isNumber literal = true := by
  cases literal with
  | nil => cases hv
  | cons c rest =>
    refine Decidable.byContradiction fun hn => ?_
    have hd : Delimited [] := trivial
    have hnext := next?_literal (List.cons_ne_nil c rest) h hd
    rw [List.append_nil, if_neg hn] at hnext
    have hscan : scan (c :: rest) = none := by
      rw [scan, List.length_cons, scanSteps, isSpace_of_isNumberChar (h c List.mem_cons_self),
        hnext]
      rfl
    rw [document?, Draft.ofText?, hscan] at hv
    cases hv

theorem Number.Survives.legible {x : Binary64} (h : (Number.real x).Survives) :
    (Number.real x).Legible := by
  unfold Number.Survives at h
  cases hx : x.isInfinite with
  | true =>
    have hchars : (Number.real x).chars = ['n', 'u', 'l', 'l'] := if_pos hx
    have hnull : document? ['n', 'u', 'l', 'l'] = some .null := rfl
    rw [hchars, hnull] at h
    cases h
  | false =>
    have hchars := isNumberChar_real hx
    have hn := isNumber_of_document? hchars h
    have hd : Delimited [] := trivial
    have hscan := Scans.literal hchars hd hn rfl .nil
    rw [List.append_nil] at hscan
    rw [document?, Draft.ofText?, scan_eq hscan] at h
    have hvalue : (number? (Number.real x).chars).map Json.number = some (.number (.real x)) := h
    obtain ⟨n, hnumber, heq⟩ := Option.map_eq_some_iff.1 hvalue
    cases heq
    exact ⟨hchars, hn, hnumber⟩

end Runbook.Json
