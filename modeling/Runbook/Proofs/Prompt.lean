import Mathlib.Data.List.Chain
import Mathlib.Data.String.Basic
import Runbook.Prompt

/-!
# Prompt templates are expanded in one pass

A template is cut at its braces in one way only: literals up to the first two opening braces, and
keys up to the first two closing braces behind them (`Template`, `Template.spelled_injective`).  The
expansion goes through these parts and writes the literals and the values as they are
(`Template.render`).  Editing the text in place, and going on behind each value that was put in,
comes to the same (`Draft.turn?`, `Ends`, `expand_in_one_pass`): every offset it computes falls
between two characters, and it comes to an end.
-/

namespace Runbook.Prompt

open String (utf8Len)

/-! ## Two marks in a row -/

/-- No two marks stand in a row. -/
def Single (mark : Char) (cs : List Char) : Prop :=
  cs.IsChain fun c d => ¬ (c = mark ∧ d = mark)

section Marks
variable {mark c : Char} {cs before after : List Char}

theorem single_cons : Single mark (c :: cs) ↔
    (c = mark → ∀ d ∈ cs.head?, d ≠ mark) ∧ Single mark cs := by
  unfold Single
  rw [List.isChain_cons]
  exact and_congr_left' ⟨fun h hc d hd hdm => h d hd ⟨hc, hdm⟩, fun h d hd hm => h hm.1 d hd hm.2⟩

theorem not_single_of_eq (h : cs = before ++ mark :: mark :: after) : ¬ Single mark cs := by
  rintro hsingle
  rw [h] at hsingle
  exact (List.isChain_append_cons_cons.mp hsingle).2.1 ⟨rfl, rfl⟩

/-- Either no two marks stand in a row, or there is a first pair of them. -/
theorem single_or_exists_pair (mark : Char) (cs : List Char) :
    Single mark cs ∨
      ∃ before after, cs = before ++ mark :: mark :: after ∧ Single mark (before ++ [mark]) := by
  induction cs with
  | nil => exact .inl .nil
  | cons c rest ih =>
    by_cases hpair : c = mark ∧ rest.head? = some mark
    · obtain ⟨rfl, hhead⟩ := hpair
      obtain ⟨after, rfl⟩ := List.head?_eq_some_iff.mp hhead
      exact .inr ⟨[], after, rfl, .singleton c⟩
    · have hcons : ∀ {tail : List Char}, tail.head? = rest.head? → Single mark tail →
          Single mark (c :: tail) := by
        intro tail hhead htail
        refine single_cons.mpr ⟨fun hc d hd hdm => hpair ⟨hc, ?_⟩, htail⟩
        rw [← hhead, ← hdm]
        exact hd
      rcases ih with hsingle | ⟨before, after, rfl, hfirst⟩
      · exact .inl (hcons rfl hsingle)
      · refine .inr ⟨c :: before, after, rfl, hcons ?_ hfirst⟩
        cases before <;> rfl

/-- The first pair of marks is where it is. -/
theorem pair_unique {before' after' : List Char} (h : Single mark (before ++ [mark]))
    (h' : Single mark (before' ++ [mark]))
    (heq : before ++ mark :: mark :: after = before' ++ mark :: mark :: after') :
    before = before' ∧ after = after' := by
  -- Where one text ends before the other, the longer one would have the pair inside.
  induction before generalizing before' with
  | nil =>
    cases before' with
    | nil => exact ⟨rfl, (List.cons.inj (List.cons.inj heq).2).2⟩
    | cons c rest =>
      obtain ⟨rfl, hrest⟩ := List.cons.inj heq
      have hhead : (rest ++ [mark]).head? = some mark := by
        cases rest with
        | nil => rfl
        | cons d tail => exact congrArg some (List.cons.inj hrest).1.symm
      exact absurd rfl ((single_cons.mp h').1 rfl mark hhead)
  | cons c rest ih =>
    cases before' with
    | nil =>
      obtain ⟨rfl, hrest⟩ := List.cons.inj heq
      have hhead : (rest ++ [c]).head? = some c := by
        cases rest with
        | nil => rfl
        | cons d tail => exact congrArg some (List.cons.inj hrest).1
      exact absurd rfl ((single_cons.mp h).1 rfl c hhead)
    | cons c' rest' =>
      obtain ⟨rfl, hrest⟩ := List.cons.inj heq
      obtain ⟨rfl, rfl⟩ := ih (single_cons.mp h).2 (single_cons.mp h').2 hrest
      exact ⟨rfl, rfl⟩

end Marks

/-! ## The parts of a template -/

/-- **A template, cut at its braces.** -/
inductive Template
  /-- A literal to the end. -/
  | text (literal : List Char) (plain : Single '\x7b' literal)
  /-- A literal up to the first opening braces, which no closing ones follow. -/
  | unclosed (literal behind : List Char) (first : Single '\x7b' (literal ++ ['\x7b']))
      (never : Single '\x7d' behind)
  /-- A literal up to the first opening braces, a key up to the first closing ones, and the rest. -/
  | slot (literal key : List Char) (first : Single '\x7b' (literal ++ ['\x7b']))
      (closes : Single '\x7d' (key ++ ['\x7d'])) (rest : Template)

namespace Template

/-- The text of a template. -/
def spelled : Template → List Char
  | text literal _ => literal
  | unclosed literal behind _ _ => literal ++ '\x7b' :: '\x7b' :: behind
  | slot literal key _ _ rest =>
    literal ++ '\x7b' :: '\x7b' :: (key ++ '\x7d' :: '\x7d' :: rest.spelled)

/-- **What is written for a template**, behind `written` bytes: its literals, and the values of its
keys, up to the first key that has none or to braces that are never closed. -/
def render (name input : String) (written : Nat) : Template → Except Error (List Char)
  | text literal _ => .ok literal
  | unclosed literal _ _ _ => .error (.unclosed (written + utf8Len literal))
  | slot literal key _ _ rest =>
    match valueOf name input key with
    | .error e => .error e
    | .ok value =>
      (rest.render name input (written + utf8Len literal + value.utf8ByteSize)).map
        (literal ++ value.toList ++ ·)

/-- Every text is that of a template. -/
theorem exists_spelled (cs : List Char) : ∃ t : Template, t.spelled = cs := by
  rcases single_or_exists_pair '\x7b' cs with hplain | ⟨literal, behind, hcs, hfirst⟩
  · exact ⟨.text cs hplain, rfl⟩
  · rcases single_or_exists_pair '\x7d' behind with hnever | ⟨key, tail, hbehind, hcloses⟩
    · exact ⟨.unclosed literal behind hfirst hnever, hcs.symm⟩
    · have hshorter : tail.length < cs.length := by
        rw [hcs, hbehind]
        simp only [List.length_append, List.length_cons]
        omega
      obtain ⟨rest, hrest⟩ := exists_spelled tail
      exact ⟨.slot literal key hfirst hcloses rest, by rw [spelled, hrest, hcs, hbehind]⟩
termination_by cs.length

/-- **A text is cut at its braces in one way only.** -/
theorem spelled_injective : Function.Injective spelled := by
  intro t
  induction t with
  | text literal plain =>
    rintro (_ | _ | _) h
    · cases h
      rfl
    · exact absurd plain (not_single_of_eq h)
    · exact absurd plain (not_single_of_eq h)
  | unclosed literal behind first never =>
    rintro (⟨_, plain⟩ | ⟨_, _, first', never'⟩ | ⟨_, _, first', _, _⟩) h
    · exact absurd plain (not_single_of_eq h.symm)
    · obtain ⟨rfl, rfl⟩ := pair_unique first first' h
      rfl
    · obtain ⟨rfl, hbehind⟩ := pair_unique first first' h
      exact absurd never (not_single_of_eq hbehind)
  | slot literal key first closes rest ih =>
    rintro (⟨_, plain⟩ | ⟨_, _, first', never'⟩ | ⟨_, _, first', closes', _⟩) h
    · exact absurd plain (not_single_of_eq h.symm)
    · obtain ⟨rfl, hbehind⟩ := pair_unique first first' h
      exact absurd never' (not_single_of_eq hbehind.symm)
    · obtain ⟨rfl, hkey⟩ := pair_unique first first' h
      obtain ⟨rfl, hrest⟩ := pair_unique closes closes' hkey
      obtain rfl := ih hrest
      rfl

end Template

/-! ## The expansion goes through the parts -/

section Expansion
variable {c : Char} {cs key tail : List Char}

theorem splitAtClose_cons (h : c = '\x7d' → ∀ d ∈ cs.head?, d ≠ '\x7d') :
    splitAtClose (c :: cs) =
      (splitAtClose cs).map fun (before, after) => (c :: before, after) := by
  rw [splitAtClose.eq_def]
  split
  · rename_i heq
    cases heq
    exact absurd rfl (h rfl '\x7d' rfl)
  · rename_i heq
    cases heq
    rfl
  · rename_i heq
    cases heq

theorem splitAtClose_of_single (h : Single '\x7d' cs) : splitAtClose cs = none := by
  induction cs with
  | nil => rfl
  | cons c rest ih =>
    obtain ⟨hc, hrest⟩ := single_cons.mp h
    rw [splitAtClose_cons hc, ih hrest]
    rfl

theorem splitAtClose_append (h : Single '\x7d' (key ++ ['\x7d'])) (tail : List Char) :
    splitAtClose (key ++ '\x7d' :: '\x7d' :: tail) = some (key, tail) := by
  induction key with
  | nil => rfl
  | cons c rest ih =>
    obtain ⟨hc, hrest⟩ := single_cons.mp h
    have hhead : (rest ++ '\x7d' :: '\x7d' :: tail).head? = (rest ++ ['\x7d']).head? := by
      cases rest <;> rfl
    rw [List.cons_append, splitAtClose_cons (by rwa [hhead]), ih hrest]
    rfl

variable (name input : String) (written : Nat)

theorem expandFrom_cons (h : c = '\x7b' → ∀ d ∈ cs.head?, d ≠ '\x7b') :
    expandFrom name input written (c :: cs) =
      (expandFrom name input (written + c.utf8Size) cs).map (c :: ·) := by
  rw [expandFrom.eq_def]
  split
  · rename_i heq
    cases heq
  · rename_i heq
    cases heq
    exact absurd rfl (h rfl '\x7b' rfl)
  · rename_i heq
    cases heq
    rfl

/-- A literal is written as it is. -/
theorem expandFrom_append {literal : List Char} (h : Single '\x7b' (literal ++ tail.head?.toList)) :
    expandFrom name input written (literal ++ tail) =
      (expandFrom name input (written + utf8Len literal) tail).map (literal ++ ·) := by
  induction literal generalizing written with
  | nil =>
    show expandFrom name input written tail = (expandFrom name input (written + 0) tail).map _
    cases expandFrom name input written tail <;> rfl
  | cons c rest ih =>
    obtain ⟨hc, hrest⟩ := single_cons.mp h
    have hhead : (rest ++ tail).head? = (rest ++ tail.head?.toList).head? := by
      cases rest with
      | nil => cases tail <;> rfl
      | cons d more => rfl
    rw [List.cons_append, expandFrom_cons name input written (by rwa [hhead]), ih _ hrest,
      String.utf8Len_cons, Nat.add_assoc, Nat.add_comm c.utf8Size]
    cases expandFrom name input (written + (utf8Len rest + c.utf8Size)) tail <;> rfl

theorem expandFrom_unclosed (h : Single '\x7d' cs) :
    expandFrom name input written ('\x7b' :: '\x7b' :: cs) = .error (.unclosed written) := by
  rw [expandFrom]
  split
  · rfl
  · rename_i hsplit
    rw [splitAtClose_of_single h] at hsplit
    cases hsplit

theorem expandFrom_slot (h : Single '\x7d' (key ++ ['\x7d'])) :
    expandFrom name input written ('\x7b' :: '\x7b' :: (key ++ '\x7d' :: '\x7d' :: tail)) =
      match valueOf name input key with
      | .error e => .error e
      | .ok value =>
        (expandFrom name input (written + value.utf8ByteSize) tail).map (value.toList ++ ·) := by
  rw [expandFrom]
  split
  · rename_i hsplit
    rw [splitAtClose_append h] at hsplit
    cases hsplit
  · rename_i hsplit
    rw [splitAtClose_append h] at hsplit
    cases hsplit
    rfl

/-- **The expansion of a template is what is written for its parts.** -/
theorem expandFrom_spelled (t : Template) :
    expandFrom name input written t.spelled = t.render name input written := by
  induction t generalizing written with
  | text literal plain =>
    have hend : Single '\x7b' (literal ++ ([] : List Char).head?.toList) := by
      rwa [List.head?_nil, Option.toList_none, List.append_nil]
    have hliteral := expandFrom_append name input written hend
    rw [List.append_nil] at hliteral
    rw [Template.spelled, hliteral, expandFrom, Template.render]
    exact congrArg Except.ok (List.append_nil literal)
  | unclosed literal behind first never =>
    rw [Template.spelled, expandFrom_append name input written first,
      expandFrom_unclosed name input _ never]
    rfl
  | slot literal key first closes rest ih =>
    rw [Template.spelled, expandFrom_append name input written first,
      expandFrom_slot name input _ closes, Template.render]
    cases valueOf name input key with
    | error e => rfl
    | ok value =>
      dsimp only
      rw [ih]
      cases rest.render name input _ with
      | error e => rfl
      | ok more => exact congrArg Except.ok (List.append_assoc ..).symm

end Expansion

/-! ## Editing in place -/

/-- **A text that is being edited**, and the byte from which it is looked at. -/
structure Draft where
  /-- The text. -/
  text : List Char
  /-- The byte behind what is done. -/
  start : Nat

/-- The text before a byte offset and the text behind it, if the offset falls between two
characters. -/
def splitAtByte? : Nat → List Char → Option (List Char × List Char)
  | 0, cs => some ([], cs)
  | _ + 1, [] => none
  | n + 1, c :: rest =>
    if c.utf8Size ≤ n + 1 then
      (splitAtByte? (n + 1 - c.utf8Size) rest).map fun (before, behind) => (c :: before, behind)
    else none

/-- The byte offset of the first two marks in a row. -/
def findPair? (mark : Char) : List Char → Option Nat
  | [] => none
  | c :: rest =>
    if c = mark ∧ rest.head? = some mark then some 0
    else (findPair? mark rest).map (· + c.utf8Size)

/-- The text between two byte offsets. -/
def slice? (first last : Nat) (cs : List Char) : Option (List Char) := do
  let (_, behind) ← splitAtByte? first cs
  let (inside, _) ← splitAtByte? (last - first) behind
  return inside

/-- The text with another one put in between two byte offsets. -/
def replaceRange? (first last : Nat) (value cs : List Char) : Option (List Char) := do
  let (before, _) ← splitAtByte? first cs
  let (_, behind) ← splitAtByte? last cs
  return before ++ value ++ behind

/-- What comes of a look at a draft. -/
inductive Turn
  /-- The editing ends. -/
  | stop (result : Except Error (List Char))
  /-- A value was put in. -/
  | again (next : Draft)

/-- **One turn of the editing**: the next key is found and its value put in its place, and the text is
looked at from behind that value on.  There is no turn if an offset does not fall between two
characters. -/
def Draft.turn? (name input : String) (d : Draft) : Option Turn := do
  let (_, ahead) ← splitAtByte? d.start d.text
  match findPair? '\x7b' ahead with
  | none => return .stop (.ok d.text)
  | some distance =>
    let opening := d.start + distance
    let (_, found) ← splitAtByte? opening d.text
    match findPair? '\x7d' found with
    | none => return .stop (.error (.unclosed opening))
    | some length =>
      let closing := opening + length + 2
      let key ← slice? (opening + 2) (closing - 2) d.text
      match valueOf name input key with
      | .error e => return .stop (.error e)
      | .ok value =>
        let text ← replaceRange? opening closing value.toList d.text
        return .again ⟨text, opening + value.utf8ByteSize⟩

/-- **Turn after turn, the editing ends with the result.** -/
inductive Ends (name input : String) : Draft → Except Error (List Char) → Prop
  | stop {d : Draft} {result : Except Error (List Char)}
      (h : d.turn? name input = some (.stop result)) : Ends name input d result
  | again {d next : Draft} {result : Except Error (List Char)}
      (h : d.turn? name input = some (.again next)) (hnext : Ends name input next result) :
      Ends name input d result

theorem Ends.unique {name input : String} {d : Draft} {result result' : Except Error (List Char)}
    (h : Ends name input d result) (h' : Ends name input d result') : result = result' := by
  induction h with
  | stop h =>
    cases h' with
    | stop h' => cases h.symm.trans h'; rfl
    | again h' _ => cases h.symm.trans h'
  | again h _ ih =>
    cases h' with
    | stop h' => cases h.symm.trans h'
    | again h' hnext => cases h.symm.trans h'; exact ih hnext

/-! ### Offsets -/

section Offsets
variable {mark : Char} {before cs value : List Char}

theorem splitAtByte?_append (before behind : List Char) :
    splitAtByte? (utf8Len before) (before ++ behind) = some (before, behind) := by
  induction before with
  | nil => cases behind <;> rfl
  | cons c rest ih =>
    have hsize : 0 < c.utf8Size := c.utf8Size_pos
    obtain ⟨n, hn⟩ : ∃ n, utf8Len rest + c.utf8Size = n + 1 := ⟨_, (Nat.sub_add_cancel (by omega)).symm⟩
    rw [String.utf8Len_cons, hn, List.cons_append, splitAtByte?, if_pos (by omega), ← hn,
      Nat.add_sub_cancel, ih]
    rfl

theorem findPair?_of_single (h : Single mark cs) : findPair? mark cs = none := by
  induction cs with
  | nil => rfl
  | cons c rest ih =>
    obtain ⟨hc, hrest⟩ := single_cons.mp h
    rw [findPair?, if_neg (fun hpair => hc hpair.1 mark hpair.2 rfl), ih hrest]
    rfl

theorem findPair?_append (h : Single mark (before ++ [mark])) (behind : List Char) :
    findPair? mark (before ++ mark :: mark :: behind) = some (utf8Len before) := by
  induction before with
  | nil => exact if_pos ⟨rfl, rfl⟩
  | cons c rest ih =>
    obtain ⟨hc, hrest⟩ := single_cons.mp h
    have hhead : (rest ++ mark :: mark :: behind).head? = (rest ++ [mark]).head? := by
      cases rest <;> rfl
    rw [List.cons_append, findPair?, hhead, if_neg (fun hpair => hc hpair.1 mark hpair.2 rfl),
      ih hrest]
    rfl

theorem slice?_append (before inside behind : List Char) :
    slice? (utf8Len before) (utf8Len before + utf8Len inside) (before ++ (inside ++ behind)) =
      some inside := by
  unfold slice?
  rw [splitAtByte?_append]
  show (splitAtByte? (utf8Len before + utf8Len inside - utf8Len before) (inside ++ behind)).bind _ = _
  rw [Nat.add_sub_cancel_left, splitAtByte?_append]
  rfl

theorem replaceRange?_append (before inside value behind : List Char) :
    replaceRange? (utf8Len before) (utf8Len before + utf8Len inside) value
      (before ++ (inside ++ behind)) = some (before ++ value ++ behind) := by
  unfold replaceRange?
  rw [splitAtByte?_append, ← List.append_assoc, ← String.utf8Len_append, splitAtByte?_append]
  rfl

end Offsets

/-! ### One turn, and all of them -/

section Turns
variable (name input : String) (done : List Char)

theorem turn?_text {literal : List Char} (plain : Single '\x7b' literal) :
    Draft.turn? name input ⟨done ++ literal, utf8Len done⟩ =
      some (.stop (.ok (done ++ literal))) := by
  unfold Draft.turn?
  dsimp only
  rw [splitAtByte?_append]
  dsimp only [Option.bind_eq_bind, Option.bind]
  rw [findPair?_of_single plain]
  rfl

/-- Closing braces are looked for from the opening ones on. -/
theorem single_behind_opening {cs : List Char} (h : Single '\x7d' cs) :
    Single '\x7d' ('\x7b' :: '\x7b' :: cs) :=
  single_cons.mpr ⟨nofun, single_cons.mpr ⟨nofun, h⟩⟩

theorem turn?_unclosed {literal behind : List Char} (first : Single '\x7b' (literal ++ ['\x7b']))
    (never : Single '\x7d' behind) :
    Draft.turn? name input ⟨done ++ (literal ++ '\x7b' :: '\x7b' :: behind), utf8Len done⟩ =
      some (.stop (.error (.unclosed (utf8Len done + utf8Len literal)))) := by
  unfold Draft.turn?
  dsimp only
  rw [splitAtByte?_append]
  dsimp only [Option.bind_eq_bind, Option.bind]
  rw [findPair?_append first]
  dsimp only
  rw [← List.append_assoc, ← String.utf8Len_append, splitAtByte?_append]
  dsimp only
  rw [findPair?_of_single (single_behind_opening never)]
  rfl

theorem turn?_slot {literal key : List Char} (tail : List Char)
    (first : Single '\x7b' (literal ++ ['\x7b']))
    (closes : Single '\x7d' (key ++ ['\x7d'])) :
    Draft.turn? name input
        ⟨done ++ (literal ++ '\x7b' :: '\x7b' :: (key ++ '\x7d' :: '\x7d' :: tail)), utf8Len done⟩ =
      some (match valueOf name input key with
        | .error e => .stop (.error e)
        | .ok value => .again ⟨done ++ literal ++ value.toList ++ tail,
            utf8Len (done ++ literal) + value.utf8ByteSize⟩) := by
  -- The three offsets of the turn, each as the length of what stands before it.
  have hfind : findPair? '\x7d' ('\x7b' :: '\x7b' :: (key ++ '\x7d' :: '\x7d' :: tail)) =
      some (utf8Len key + 2) := by
    have hpair : findPair? '\x7d' (('\x7b' :: '\x7b' :: key) ++ '\x7d' :: '\x7d' :: tail) =
        some (utf8Len ('\x7b' :: '\x7b' :: key)) :=
      findPair?_append (single_behind_opening closes) tail
    exact hpair
  have hkey : slice? (utf8Len (done ++ literal) + 2)
      (utf8Len (done ++ literal) + (utf8Len key + 2) + 2 - 2)
      (done ++ literal ++ '\x7b' :: '\x7b' :: (key ++ '\x7d' :: '\x7d' :: tail)) = some key := by
    have h := slice?_append (done ++ literal ++ ['\x7b', '\x7b']) key ('\x7d' :: '\x7d' :: tail)
    have hfirst : utf8Len (done ++ literal ++ ['\x7b', '\x7b']) = utf8Len (done ++ literal) + 2 :=
      String.utf8Len_append ..
    have hlast : utf8Len (done ++ literal) + (utf8Len key + 2) + 2 - 2 =
        utf8Len (done ++ literal) + 2 + utf8Len key := by omega
    rw [hfirst, List.append_assoc (done ++ literal)] at h
    rw [hlast]
    exact h
  have hput : ∀ value : String, replaceRange? (utf8Len (done ++ literal))
      (utf8Len (done ++ literal) + (utf8Len key + 2) + 2) value.toList
      (done ++ literal ++ '\x7b' :: '\x7b' :: (key ++ '\x7d' :: '\x7d' :: tail)) =
        some (done ++ literal ++ value.toList ++ tail) := by
    intro value
    have h := replaceRange?_append (done ++ literal) ('\x7b' :: '\x7b' :: (key ++ ['\x7d', '\x7d']))
      value.toList tail
    have hinside : utf8Len ('\x7b' :: '\x7b' :: (key ++ ['\x7d', '\x7d'])) = utf8Len key + 2 + 2 :=
      congrArg (· + 2) (String.utf8Len_append ..)
    rw [hinside, List.cons_append, List.cons_append, List.append_assoc key] at h
    exact h
  unfold Draft.turn?
  dsimp only
  rw [splitAtByte?_append]
  dsimp only [Option.bind_eq_bind, Option.bind]
  rw [findPair?_append first]
  dsimp only
  rw [← List.append_assoc, ← String.utf8Len_append, splitAtByte?_append]
  dsimp only
  rw [hfind]
  dsimp only
  rw [hkey]
  dsimp only
  cases valueOf name input key with
  | error e => rfl
  | ok value =>
    dsimp only
    rw [hput]
    rfl

/-- **The editing ends** with what is done and what is written for the rest of the template. -/
theorem ends_spelled (t : Template) :
    Ends name input ⟨done ++ t.spelled, utf8Len done⟩
      ((t.render name input (utf8Len done)).map (done ++ ·)) := by
  -- Over the parts that are left: whatever is done, its text is never looked at again.
  induction t generalizing done with
  | text literal plain => exact .stop (turn?_text name input done plain)
  | unclosed literal behind first never => exact .stop (turn?_unclosed name input done first never)
  | slot literal key first closes rest ih =>
    have hturn := turn?_slot name input done rest.spelled first closes
    rw [Template.render]
    cases hvalue : valueOf name input key with
    | error e =>
      rw [hvalue] at hturn
      exact .stop hturn
    | ok value =>
      rw [hvalue] at hturn
      have hstart : utf8Len (done ++ literal ++ value.toList) =
          utf8Len (done ++ literal) + value.utf8ByteSize := by
        rw [String.utf8Len_append, String.utf8Len_toList]
      have hrest := ih (done ++ literal ++ value.toList)
      rw [hstart, String.utf8Len_append] at hrest
      rw [String.utf8Len_append] at hturn
      refine .again hturn ?_
      dsimp only
      cases hmore : rest.render name input (utf8Len done + utf8Len literal + value.utf8ByteSize) with
      | error e =>
        rw [hmore] at hrest
        exact hrest
      | ok more =>
        rw [hmore] at hrest
        have hwritten : done ++ literal ++ value.toList ++ more =
            done ++ (literal ++ value.toList ++ more) := by
          simp only [List.append_assoc]
        show Ends name input _ (.ok (done ++ (literal ++ value.toList ++ more)))
        rw [← hwritten]
        exact hrest

end Turns

/-- **A template is expanded in one pass over its own text**: that is cut at its braces in one way,
without a look at the values, and the expansion writes its literals and the values of its keys as they
are.  Editing the text in place ends, with the same result. -/
theorem expand_in_one_pass : Function.Injective Template.spelled ∧
    ∀ source : String, ∃ t : Template, t.spelled = source.toList ∧
      ∀ name input : String,
        expand source name input = (t.render name input 0).map String.ofList ∧
        ∀ result, Ends name input ⟨source.toList, 0⟩ result ↔ result = t.render name input 0 := by
  refine ⟨Template.spelled_injective, fun source => ?_⟩
  obtain ⟨t, ht⟩ := Template.exists_spelled source.toList
  refine ⟨t, ht, fun name input => ⟨?_, fun result => ?_⟩⟩
  · rw [expand, ← ht, expandFrom_spelled]
  · have hends : Ends name input ⟨source.toList, 0⟩ (t.render name input 0) := by
      have h := ends_spelled name input [] t
      have hmap : (t.render name input 0).map ([] ++ ·) = t.render name input 0 := by
        cases t.render name input 0 <;> rfl
      rw [← ht, ← hmap]
      exact h
    constructor
    · intro h
      exact h.unique hends
    · rintro rfl
      exact hends

/-- Braces that were put in open nothing. -/
example : (expand "\x7b\x7bOperation.name\x7d\x7d Operation.input\x7d\x7d" "\x7b\x7b" "i").toOption =
    some "\x7b\x7b Operation.input\x7d\x7d" := by
  decide +kernel

end Runbook.Prompt
