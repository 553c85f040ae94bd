import Runbook.Proofs.Guard.Cut
import Runbook.Proofs.Json.RoundTrip
import Mathlib.Data.List.Basic

/-!
# JSON texts in guards

A list as JSON writes it is a list literal of a guard: brackets, commas, `true`, `false` and `null`
mean the same in both.  Its texts stand in double quotes in both, but a guard knows fewer escapes: a
line feed and a tab, and any other character for itself.  So the escape of another control loses its
backslash and nothing more (`heard`), and a text is heard as it is if it has no such control
(`heard_eq_self_iff`).
-/

namespace Runbook.Guard

/-! ## What characters stand for in a text literal -/

/-- **In a literal between these quotes, the characters stand for the content.** -/
def StandsFor (quote : Char) (cs content : List Char) : Prop :=
  ∀ tail, textBody quote (cs ++ tail) =
    (textBody quote tail).map fun r => (content ++ r.1, cs ++ r.2.1, r.2.2)

namespace StandsFor
variable {quote : Char}

theorem nil : StandsFor quote [] [] := by
  intro tail
  cases h : textBody quote tail <;> simp [h]

theorem append {cs ds content more : List Char} (hc : StandsFor quote cs content)
    (hd : StandsFor quote ds more) : StandsFor quote (cs ++ ds) (content ++ more) := by
  intro tail
  rw [List.append_assoc, hc, hd, Option.map_map]
  simp [Function.comp_def]

theorem plain {c : Char} (hquote : c ≠ quote) (hback : c ≠ '\\') : StandsFor quote [c] [c] := by
  intro tail
  show textBody quote (c :: tail) = _
  rw [textBody_of_ne_backslash hback, if_neg hquote]
  rfl

theorem escape (c : Char) : StandsFor quote ['\\', c] [escaped c] := by
  intro tail
  show textBody quote ('\\' :: c :: tail) = _
  rw [textBody]
  rfl

/-- Characters that end nothing stand for themselves. -/
theorem self {cs : List Char} (h : ∀ c ∈ cs, c ≠ quote ∧ c ≠ '\\') : StandsFor quote cs cs := by
  induction cs with
  | nil => exact nil
  | cons c rest ih =>
    obtain ⟨hc, hrest⟩ := List.forall_mem_cons.mp h
    exact (plain hc.1 hc.2).append (ih hrest)

theorem flatMap {spell content : Char → List Char}
    (h : ∀ c, StandsFor quote (spell c) (content c)) (s : List Char) :
    StandsFor quote (s.flatMap spell) (s.flatMap content) := by
  induction s with
  | nil => exact nil
  | cons c rest ih =>
    rw [List.flatMap_cons, List.flatMap_cons]
    exact (h c).append ih

end StandsFor

/-- **A text literal is one token.** -/
theorem Cut.quoted {quote : Char} (hq : isQuote quote = true) {cs content : List Char}
    (h : StandsFor quote cs content) :
    Cut (quote :: (cs ++ [quote])) [.text (String.ofList content)] := by
  have hback : quote ≠ '\\' := by
    rintro rfl
    cases hq
  have hend : textBody quote [quote] = some ([], [quote], []) := by
    rw [textBody_of_ne_backslash hback, if_pos rfl]
  have hbody : textBody quote (cs ++ [quote]) = some (content, cs ++ [quote], []) := by
    rw [h, hend]
    simp
  have htext : Piece.next quote (cs ++ [quote]) = Piece.text quote (cs ++ [quote]) := by
    obtain rfl | rfl := isQuote_iff.mp hq <;> rfl
  have hnext : Piece.next quote (cs ++ [quote]) =
      ⟨.ok (.text (String.ofList content)), quote :: (cs ++ [quote]), []⟩ := by
    rw [htext, Piece.text, hbody]
  have hblank : Text.isBlank quote = false := by
    obtain rfl | rfl := isQuote_iff.mp hq <;> rfl
  exact Cut.one hblank hnext

/-! ## Texts as JSON quotes them -/

/-- The character is a control for which guards have no escape. -/
def isMisheard (c : Char) : Bool :=
  c.toNat < 0x20 && c != '\n' && c != '\t'

/-- What a guard reads for a character of a text in JSON: the escape without its backslash for a
control that guards have no escape for, and else the character. -/
def heardChar (c : Char) : List Char :=
  if isMisheard c then (Json.escapeChar c).tail else [c]

/-- **What a guard reads for a text in JSON.** -/
def heard (s : String) : String :=
  String.ofList (s.toList.flatMap heardChar)

theorem hexDigit_plain : ∀ n < 16, Json.hexDigit n ≠ '"' ∧ Json.hexDigit n ≠ '\\' := by
  decide

/-- **What JSON writes for a character stands for what is heard.** -/
theorem standsFor_escapeChar (c : Char) : StandsFor '"' (Json.escapeChar c) (heardChar c) := by
  by_cases hquote : c = '"'
  · subst hquote; exact .escape '"'
  by_cases hback : c = '\\'
  · subst hback; exact .escape '\\'
  by_cases hbackspace : c = '\x08'
  · subst hbackspace; exact .escape 'b'
  by_cases hfeed : c = '\x0c'
  · subst hfeed; exact .escape 'f'
  by_cases hline : c = '\n'
  · subst hline; exact .escape 'n'
  by_cases hreturn : c = '\r'
  · subst hreturn; exact .escape 'r'
  by_cases htab : c = '\t'
  · subst htab; exact .escape 't'
  unfold heardChar Json.escapeChar
  rw [if_neg hquote, if_neg hback, if_neg hbackspace, if_neg hfeed, if_neg hline, if_neg hreturn,
    if_neg htab]
  by_cases hspace : c.toNat < 0x20
  · have hmis : isMisheard c = true := by simp [isMisheard, hspace, hline, htab]
    rw [if_pos hmis, if_pos hspace]
    have hfirst := hexDigit_plain (c.toNat / 16) (by omega)
    have hsecond := hexDigit_plain (c.toNat % 16) (by omega)
    refine (StandsFor.escape 'u').append (.self ?_)
    simp only [List.forall_mem_cons]
    exact ⟨by decide, by decide, hfirst, hsecond, List.forall_mem_nil _⟩
  · have hmis : isMisheard c = false := by simp [isMisheard, hspace]
    rw [if_neg (Bool.eq_false_iff.1 hmis), if_neg hspace]
    exact .plain hquote hback

theorem Cut.quoteChars (s : String) :
    Cut (Json.quoteChars s.toList) [.text (heard s)] :=
  .quoted rfl (.flatMap standsFor_escapeChar s.toList)

/-! ## What is heard as it is -/

theorem not_isMisheard_of_mem_heardChar {c d : Char} (h : d ∈ heardChar c) :
    isMisheard d = false := by
  unfold heardChar at h
  split at h
  · have hvisible := Json.visible_escapeChar c d (List.mem_of_mem_tail h)
    simp [isMisheard, Nat.not_lt.mpr hvisible]
  · rename_i hmis
    obtain rfl := List.mem_singleton.mp h
    exact Bool.eq_false_iff.2 hmis

/-- **A text is heard as it is** exactly if guards have an escape for every control in it. -/
theorem heard_eq_self_iff (s : String) :
    heard s = s ↔ ∀ c ∈ s.toList, isMisheard c = false := by
  constructor
  · intro h c hc
    rw [← h, heard, String.toList_ofList] at hc
    obtain ⟨d, _, hd⟩ := List.mem_flatMap.mp hc
    exact not_isMisheard_of_mem_heardChar hd
  · intro h
    have hchars : s.toList.flatMap heardChar = s.toList.flatMap ([·]) :=
      List.flatMap_congr fun c hc => by rw [heardChar, h c hc]; rfl
    rw [heard, hchars, List.flatMap_singleton', String.ofList_toList]

end Runbook.Guard

/-! ## Lists of texts, truth values and `null` -/

namespace Runbook.Json

mutual

/-- **Nothing but texts, truth values and `null`** stands in the arrays of a value. -/
def IsListing : Json → Prop
  | number _ => False
  | object _ => False
  | array items => AreListings items
  | _ => True

/-- Nothing but texts, truth values and `null` stands in these items and their arrays. -/
def AreListings : List Json → Prop
  | [] => True
  | v :: rest => v.IsListing ∧ AreListings rest

end

mutual

/-- The texts of a value, from left to right. -/
def texts : Json → List String
  | text s => [s]
  | array items => itemsTexts items
  | _ => []

/-- The texts of these items. -/
def itemsTexts : List Json → List String
  | [] => []
  | v :: rest => v.texts ++ itemsTexts rest

end

mutual

/-- **The value of a guard that a value is**, with what `say` makes of its texts. -/
def asValue (say : String → String) : Json → Guard.Value
  | boolean b => .boolean b
  | text s => .text (say s)
  | array items => .list (asValues say items)
  | _ => .nothing

/-- The values of guards that these items are. -/
def asValues (say : String → String) : List Json → List Guard.Value
  | [] => []
  | v :: rest => v.asValue say :: asValues say rest

end

mutual

theorem legible_of_isListing : (v : Json) → v.IsListing → v.Legible
  | null, _ => trivial
  | boolean _, _ => trivial
  | text _, _ => trivial
  | array items, h => legible_of_areListings items h

theorem legible_of_areListings : (items : List Json) → AreListings items → ItemsLegible items
  | [], _ => trivial
  | v :: rest, h => ⟨legible_of_isListing v h.1, legible_of_areListings rest h.2⟩

end

mutual

/-- **A value is said as it is** exactly if each of its texts is. -/
theorem asValue_eq_iff (say : String → String) : (v : Json) →
    (v.asValue say = v.asValue id ↔ ∀ s ∈ v.texts, say s = s)
  | null => by simp [asValue, texts]
  | boolean _ => by simp [asValue, texts]
  | number _ => by simp [asValue, texts]
  | object _ => by simp [asValue, texts]
  | text s => by simp [asValue, texts]
  | array items => by simpa [asValue, texts] using asValues_eq_iff say items

theorem asValues_eq_iff (say : String → String) : (items : List Json) →
    (asValues say items = asValues id items ↔ ∀ s ∈ itemsTexts items, say s = s)
  | [] => by simp [asValues, itemsTexts]
  | v :: rest => by
    rw [asValues, asValues, List.cons.injEq, asValue_eq_iff say v, asValues_eq_iff say rest,
      itemsTexts, List.forall_mem_append]

end

end Runbook.Json

namespace Runbook.Guard
open Grammar

/-! ## The derivation of a list -/

/-- A primary alone. -/
def Grammar.Primary.alone (p : Primary) : Disjunction :=
  .one (.one (.chain (.mk (.primary p) .none)))

/-- Content with an item before it. -/
def Grammar.Content.prepend (item : Disjunction) : Content → Items
  | .empty => .last item false
  | .items more => .more item more

/-- The tokens of content that follows an item. -/
def Grammar.Content.tokensAfter : Content → List Token
  | .empty => []
  | .items more => .comma :: more.tokens

mutual

/-- **The literal that a list is**: a text as it is heard. -/
def literal : Json → Primary
  | .boolean true => .constant "true" (.boolean true) (by simp [constants])
  | .boolean false => .constant "false" (.boolean false) (by simp [constants])
  | .text s => .text (heard s)
  | .array items => .bracketed .square (listed items)
  | _ => .constant "null" .nothing (by simp [constants])

/-- What stands between the brackets of a list of these items. -/
def listed : List Json → Content
  | [] => .empty
  | v :: rest => .items ((listed rest).prepend (literal v).alone)

end

theorem nesting_alone (p : Primary) : p.alone.nesting = p.nesting :=
  Nat.max_zero p.nesting

theorem tokens_alone (p : Primary) : p.alone.tokens = p.tokens :=
  List.append_nil p.tokens

theorem nesting_prepend (item : Disjunction) (c : Content) :
    (c.prepend item).nesting = max item.nesting c.nesting := by
  cases c with
  | empty => exact (Nat.max_zero item.nesting).symm
  | items more => rfl

theorem tokens_prepend (item : Disjunction) (c : Content) :
    (c.prepend item).tokens = item.tokens ++ c.tokensAfter := by
  cases c with
  | empty => rfl
  | items more => rfl

theorem expressions_prepend (item : Disjunction) (c : Content) :
    (c.prepend item).expressions = item.denoted :: c.expressions := by
  cases c with
  | empty => rfl
  | items more => rfl

mutual

theorem nesting_literal_le : (v : Json) → (literal v).nesting ≤ v.nesting
  | .null | .boolean true | .boolean false | .text _ | .number _ | .object _ => Nat.zero_le _
  | .array items => Nat.succ_le_succ (nesting_listed_le items)

theorem nesting_listed_le : (items : List Json) →
    (listed items).nesting ≤ Json.itemsNesting items
  | [] => Nat.le_refl 0
  | v :: rest => by
    show ((listed rest).prepend (literal v).alone).nesting ≤ _
    rw [nesting_prepend, nesting_alone]
    exact Nat.max_le.mpr ⟨Nat.le_trans (nesting_literal_le v) (Nat.le_max_left ..),
      Nat.le_trans (nesting_listed_le rest) (Nat.le_max_right ..)⟩

end

mutual

/-- **A list is cut into the tokens of its literal.** -/
theorem cut_chars : (v : Json) → v.IsListing → Cut v.chars (literal v).tokens
  | .null, _ => .one rfl rfl
  | .boolean true, _ => .one rfl rfl
  | .boolean false, _ => .one rfl rfl
  | .text s, _ => .quoteChars s
  | .array [], _ => .cons rfl rfl (.one rfl rfl)
  | .array (v :: rest), h => by
    have hclose : Cut [']'] [.closeBracket] := .one rfl rfl
    have hmore := (cut_itemsChars rest h.2).append hclose (by simp [Delimited, delimiters])
    have hd : Delimited (Json.itemsChars rest ++ [']']) := by
      cases rest <;> simp [Json.itemsChars, Delimited, delimiters]
    have hopen : Cut ('[' :: _) (.openBracket :: _) :=
      .cons rfl rfl ((cut_chars v h.1).append hmore hd)
    have htokens : (literal (.array (v :: rest))).tokens =
        .openBracket :: ((literal v).tokens ++ ((listed rest).tokensAfter ++ [.closeBracket])) := by
      show .openBracket :: ((listed rest).prepend (literal v).alone).tokens ++ [.closeBracket] = _
      rw [tokens_prepend, tokens_alone, List.cons_append, List.append_assoc]
    rw [htokens]
    simpa [Json.chars] using hopen

theorem cut_itemsChars : (items : List Json) → Json.AreListings items →
    Cut (Json.itemsChars items) (listed items).tokensAfter
  | [], _ => .nil
  | v :: rest, h => by
    have hd : Delimited (Json.itemsChars rest) := by
      cases rest <;> simp [Json.itemsChars, Delimited, delimiters]
    have hcomma : Cut (',' :: _) (.comma :: _) :=
      .cons rfl rfl ((cut_chars v h.1).append (cut_itemsChars rest h.2) hd)
    show Cut (',' :: (v.chars ++ Json.itemsChars rest))
      (.comma :: ((listed rest).prepend (literal v).alone).tokens)
    rw [tokens_prepend, tokens_alone]
    exact hcomma

end

mutual

/-- **The literal of a list has its value**, with each text as it is heard. -/
theorem evaluate_literal : (v : Json) → v.IsListing →
    (literal v).denoted.evaluate = .ok (v.asValue heard)
  | .null, _ => rfl
  | .boolean true, _ => rfl
  | .boolean false, _ => rfl
  | .text _, _ => rfl
  | .array items, h => by
    show (Expression.evaluateItems (listed items).expressions).map Value.list = _
    rw [evaluate_listed items h]
    rfl

theorem evaluate_listed : (items : List Json) → Json.AreListings items →
    Expression.evaluateItems (listed items).expressions = .ok (Json.asValues heard items)
  | [], _ => rfl
  | v :: rest, h => by
    show Expression.evaluateItems ((listed rest).prepend (literal v).alone).expressions = _
    rw [expressions_prepend]
    show ((literal v).denoted.evaluate >>= fun w =>
      Expression.evaluateItems (listed rest).expressions >>= fun ws => .ok (w :: ws)) = _
    rw [evaluate_literal v h.1, evaluate_listed rest h.2]
    rfl

end

/-- **The text of a list is read as the list**, with each text as it is heard, if its arrays do not
enclose each other more often than a reader of guards follows. -/
theorem read_compact {items : List Json} (h : Json.AreListings items)
    (hn : (Json.array items).nesting ≤ maxNesting) :
    ∃ e, read (Json.array items).compact = .ok e ∧
      e.evaluate = .ok (.list (Json.asValues heard items)) := by
  have hcut : Cut (Json.array items).compact.toList (literal (.array items)).alone.tokens := by
    rw [tokens_alone, Json.compact, String.toList_ofList]
    exact cut_chars (.array items) h
  have hnesting : (literal (.array items)).alone.nesting ≤ maxNesting := by
    rw [nesting_alone]
    exact Nat.le_trans (nesting_literal_le (.array items)) hn
  exact ⟨_, read_of_cut hcut hnesting, evaluate_literal (.array items) h⟩

end Runbook.Guard
