import Runbook.Proofs.Json.Literal
import Runbook.Proofs.Json.Text

/-!
# The text of a JSON value is cut into its tokens

The compact text of a value is the texts of its tokens, one after the other.  A text ends at its
quote and a number before the first character that may not stand in one, so each token is found
again (`scans_chars`), if every number of the value is read from its text (`Legible`).  No character
of the text is a control, so the text is one line (`visible_chars`).
-/

namespace Runbook.Json

open Token

/-! ## Tokens of a value -/

mutual

/-- The tokens of the text of a value. -/
def tokens : Json → List Token
  | null => [.scalar (some .null)]
  | boolean b => [.scalar (some (.boolean b))]
  | number n => [.scalar (some (.number n))]
  | text s => [.text (some s)]
  | array [] => [.openArray, .closeArray]
  | array (v :: rest) => .openArray :: (v.tokens ++ (itemsTokens rest ++ [.closeArray]))
  | object [] => [.openObject, .closeObject]
  | object ((k, v) :: rest) =>
    .openObject :: .text (some k) :: .colon ::
      (v.tokens ++ (membersTokens rest ++ [.closeObject]))

/-- The tokens of the items after the first, each after a comma. -/
def itemsTokens : List Json → List Token
  | [] => []
  | v :: rest => .comma :: (v.tokens ++ itemsTokens rest)

/-- The tokens of the members after the first, each after a comma. -/
def membersTokens : List (String × Json) → List Token
  | [] => []
  | (k, v) :: rest =>
    .comma :: .text (some k) :: .colon :: (v.tokens ++ membersTokens rest)

end

mutual

/-- **Every number of a value is read from its text.** -/
def Legible : Json → Prop
  | number n => n.Legible
  | array items => ItemsLegible items
  | object members => MembersLegible members
  | _ => True

/-- Every number of these items is read from its text. -/
def ItemsLegible : List Json → Prop
  | [] => True
  | v :: rest => v.Legible ∧ ItemsLegible rest

/-- Every number of these members is read from its text. -/
def MembersLegible : List (String × Json) → Prop
  | [] => True
  | (_, v) :: rest => v.Legible ∧ MembersLegible rest

end

/-! ## Cutting the text into tokens -/

/-- The tokens of a text, found in as many steps as it has characters at most. -/
def Scans (cs : List Char) (ts : List Token) : Prop :=
  ∀ fuel, cs.length ≤ fuel → scanSteps fuel cs = some ts

theorem Scans.nil : Scans [] [] := by
  intro fuel _
  cases fuel <;> rfl

theorem Scans.cons {c : Char} {rest tail : List Char} {token : Token} {ts : List Token}
    (hc : isSpace c = false) (hnext : next? (c :: rest) = some (token, tail))
    (hlength : tail.length ≤ rest.length) (h : Scans tail ts) :
    Scans (c :: rest) (token :: ts) := by
  intro fuel hfuel
  cases fuel with
  | zero => cases hfuel
  | succ fuel =>
    have hrest := h fuel (Nat.le_trans hlength (Nat.le_of_succ_le_succ hfuel))
    rw [scanSteps, hc, hnext]
    show (scanSteps fuel tail).bind _ = _
    rw [hrest]
    rfl

theorem Scans.text {tail : List Char} {ts : List Token} (h : Scans tail ts) (s : String) :
    Scans (quoteChars s.toList ++ tail) (.text (some s) :: ts) := by
  have hnext := next?_quoteChars s.toList tail
  rw [String.ofList_toList] at hnext
  have hlength : tail.length ≤ (s.toList.flatMap escapeChar ++ ['"'] ++ tail).length := by
    rw [List.length_append]
    omega
  exact .cons rfl hnext hlength h

theorem isSpace_of_isNumberChar {c : Char} (h : isNumberChar c = true) : isSpace c = false := by
  refine Bool.eq_false_iff.2 fun hspace => ?_
  simp only [isSpace, Bool.or_eq_true, beq_iff_eq] at hspace
  obtain ((rfl | rfl) | rfl) | rfl := hspace <;> cases h

theorem Scans.literal {literal tail : List Char} {ts : List Token} {value : Option Json}
    (hc : ∀ c ∈ literal, isNumberChar c = true) (ht : Delimited tail)
    (hn : isNumber literal = true) (hvalue : (number? literal).map .number = value)
    (h : Scans tail ts) : Scans (literal ++ tail) (.scalar value :: ts) := by
  obtain ⟨c, rest, rfl⟩ : ∃ c rest, literal = c :: rest := by
    cases literal with
    | nil => cases hn
    | cons c rest => exact ⟨c, rest, rfl⟩
  have hnext := next?_literal (List.cons_ne_nil c rest) hc ht
  rw [if_pos hn, hvalue] at hnext
  exact .cons (isSpace_of_isNumberChar (hc c List.mem_cons_self)) hnext (by simp) h

theorem delimited_items {tail : List Char} (ht : Delimited tail) (items : List Json) :
    Delimited (itemsChars items ++ tail) := by
  cases items with
  | nil => exact ht
  | cons v rest => exact rfl

theorem delimited_members {tail : List Char} (ht : Delimited tail)
    (members : List (String × Json)) : Delimited (membersChars members ++ tail) := by
  cases members with
  | nil => exact ht
  | cons v rest => exact rfl

mutual

/-- **The text of a value is cut into the tokens of the value.** -/
theorem scans_chars : (v : Json) → v.Legible → {tail : List Char} → {ts : List Token} →
    Delimited tail → Scans tail ts → Scans (v.chars ++ tail) (v.tokens ++ ts)
  | null, _, tail, _, _, h => .cons rfl rfl (Nat.le_add_right tail.length 3) h
  | boolean true, _, tail, _, _, h => .cons rfl rfl (Nat.le_add_right tail.length 3) h
  | boolean false, _, tail, _, _, h => .cons rfl rfl (Nat.le_add_right tail.length 4) h
  | number n, hv, _, _, ht, h => by
    have hvalue : (number? n.chars).map number = some (number n) := by
      rw [Number.Legible.number?_eq hv]
      rfl
    exact .literal hv.isNumberChar_of_mem ht hv.isNumber hvalue h
  | text s, _, _, _, _, h => h.text s
  | array [], _, tail, _, _, h =>
    .cons rfl rfl (Nat.le_refl _) (.cons rfl rfl (Nat.le_refl _) h)
  | array (v :: rest), hv, tail, ts, ht, h => by
    have hclose : Scans (']' :: tail) (.closeArray :: ts) := .cons rfl rfl (Nat.le_refl _) h
    have hd : Delimited (']' :: tail) := rfl
    have hfirst := scans_chars v hv.1 (delimited_items hd rest) (scans_items rest hv.2 hd hclose)
    have hopen : Scans ('[' :: _) (.openArray :: _) := .cons rfl rfl (Nat.le_refl _) hfirst
    simpa [chars, tokens] using hopen
  | object [], _, tail, _, _, h =>
    .cons rfl rfl (Nat.le_refl _) (.cons rfl rfl (Nat.le_refl _) h)
  | object ((k, v) :: rest), hv, tail, ts, ht, h => by
    have hclose : Scans ('\x7d' :: tail) (.closeObject :: ts) := .cons rfl rfl (Nat.le_refl _) h
    have hd : Delimited ('\x7d' :: tail) := rfl
    have hfirst := scans_chars v hv.1 (delimited_members hd rest)
      (scans_members rest hv.2 hd hclose)
    have hcolon : Scans (':' :: _) (.colon :: _) := .cons rfl rfl (Nat.le_refl _) hfirst
    have hopen : Scans ('\x7b' :: _) (.openObject :: _) :=
      .cons rfl rfl (Nat.le_refl _) (hcolon.text k)
    simpa [chars, tokens] using hopen

theorem scans_items : (items : List Json) → ItemsLegible items → {tail : List Char} →
    {ts : List Token} → Delimited tail → Scans tail ts →
    Scans (itemsChars items ++ tail) (itemsTokens items ++ ts)
  | [], _, _, _, _, h => h
  | v :: rest, hv, tail, ts, ht, h => by
    have hfirst := scans_chars v hv.1 (delimited_items ht rest) (scans_items rest hv.2 ht h)
    have hcomma : Scans (',' :: _) (.comma :: _) := .cons rfl rfl (Nat.le_refl _) hfirst
    simpa [itemsChars, itemsTokens] using hcomma

theorem scans_members : (members : List (String × Json)) → MembersLegible members →
    {tail : List Char} → {ts : List Token} → Delimited tail → Scans tail ts →
    Scans (membersChars members ++ tail) (membersTokens members ++ ts)
  | [], _, _, _, _, h => h
  | (k, v) :: rest, hv, tail, ts, ht, h => by
    have hfirst := scans_chars v hv.1 (delimited_members ht rest) (scans_members rest hv.2 ht h)
    have hcolon : Scans (':' :: _) (.colon :: _) := .cons rfl rfl (Nat.le_refl _) hfirst
    have hcomma : Scans (',' :: _) (.comma :: _) :=
      .cons rfl rfl (Nat.le_refl _) (hcolon.text k)
    simpa [membersChars, membersTokens] using hcomma

end

/-! ## A compact text is one line -/

/-- The character is no control below a space, as a line feed and a carriage return are. -/
def Visible (c : Char) : Prop :=
  0x20 ≤ c.toNat

instance (c : Char) : Decidable (Visible c) :=
  inferInstanceAs (Decidable (0x20 ≤ c.toNat))

theorem visible_hexDigit : ∀ n < 16, Visible (hexDigit n) := by
  decide

theorem visible_of_all {cs : List Char} (h : cs.all (fun c => decide (0x20 ≤ c.toNat)) = true) :
    ∀ c ∈ cs, Visible c :=
  fun c hc => of_decide_eq_true (List.all_eq_true.1 h c hc)

theorem visible_escapeChar (c : Char) : ∀ d ∈ escapeChar c, Visible d := by
  unfold escapeChar
  split
  · exact visible_of_all rfl
  split
  · exact visible_of_all rfl
  split
  · exact visible_of_all rfl
  split
  · exact visible_of_all rfl
  split
  · exact visible_of_all rfl
  split
  · exact visible_of_all rfl
  split
  · exact visible_of_all rfl
  split
  · have hfirst := visible_hexDigit (c.toNat / 16) (by omega)
    have hsecond := visible_hexDigit (c.toNat % 16) (by omega)
    simp only [List.forall_mem_cons]
    exact ⟨by decide, by decide, by decide, by decide, hfirst, hsecond, nofun⟩
  · rename_i hspace
    exact List.forall_mem_singleton.2 (Nat.le_of_not_lt hspace)

theorem visible_quoteChars (s : List Char) : ∀ c ∈ quoteChars s, Visible c := by
  have hs : ∀ c ∈ s.flatMap escapeChar, Visible c := by
    intro c hc
    obtain ⟨d, _, hd⟩ := List.mem_flatMap.1 hc
    exact visible_escapeChar d c hd
  unfold quoteChars
  simp only [List.forall_mem_append, List.forall_mem_cons]
  exact ⟨⟨by decide, hs⟩, by decide, nofun⟩

theorem visible_of_isNumberChar {c : Char} (h : isNumberChar c = true) : Visible c := by
  by_cases hlow : c.toNat < 0x20
  · have hlist : ∀ n < 0x20, isNumberChar (Char.ofNat n) = false := by decide
    have hc := hlist c.toNat hlow
    rw [Char.ofNat_toNat, h] at hc
    cases hc
  · exact Nat.le_of_not_lt hlow

mutual

/-- **The compact text of a value has no line breaks.** -/
theorem visible_chars : (v : Json) → v.Legible → ∀ c ∈ v.chars, Visible c
  | null, _ => visible_of_all rfl
  | boolean true, _ => visible_of_all rfl
  | boolean false, _ => visible_of_all rfl
  | number n, hv => fun c hc => visible_of_isNumberChar (hv.isNumberChar_of_mem c hc)
  | text s, _ => visible_quoteChars s.toList
  | array [], _ => visible_of_all rfl
  | array (v :: rest), hv => by
    have hfirst := visible_chars v hv.1
    have hrest := visible_itemsChars rest hv.2
    unfold chars
    simp only [List.forall_mem_append, List.forall_mem_cons]
    exact ⟨⟨⟨by decide, hfirst⟩, hrest⟩, by decide, nofun⟩
  | object [], _ => visible_of_all rfl
  | object ((k, v) :: rest), hv => by
    have hname := visible_quoteChars k.toList
    have hfirst := visible_chars v hv.1
    have hrest := visible_membersChars rest hv.2
    unfold chars
    simp only [List.forall_mem_append, List.forall_mem_cons]
    exact ⟨⟨⟨⟨by decide, hname⟩, by decide, hfirst⟩, hrest⟩, by decide, nofun⟩

theorem visible_itemsChars : (items : List Json) → ItemsLegible items →
    ∀ c ∈ itemsChars items, Visible c
  | [], _ => nofun
  | v :: rest, hv => by
    have hfirst := visible_chars v hv.1
    have hrest := visible_itemsChars rest hv.2
    unfold itemsChars
    simp only [List.forall_mem_append, List.forall_mem_cons]
    exact ⟨⟨by decide, hfirst⟩, hrest⟩

theorem visible_membersChars : (members : List (String × Json)) → MembersLegible members →
    ∀ c ∈ membersChars members, Visible c
  | [], _ => nofun
  | (k, v) :: rest, hv => by
    have hname := visible_quoteChars k.toList
    have hfirst := visible_chars v hv.1
    have hrest := visible_membersChars rest hv.2
    unfold membersChars
    simp only [List.forall_mem_append, List.forall_mem_cons]
    exact ⟨⟨⟨by decide, hname⟩, by decide, hfirst⟩, hrest⟩

end

end Runbook.Json
