import Runbook.Proofs.Guard.Comparison
import Runbook.Proofs.Guard.Quoted
import Runbook.Proofs.Run.Output

/-!
# Outputs in guards

A guard sees an output as the text that stands for it.  Between quotes, a field that is plain text is
compared with a literal as what it is, whatever it looks like (`quoted_field_compares`).  Without
quotes, a list of texts, truth values and `null` is a list literal: it is searched item by item
(`list_is_searched`).  Only controls other than a line feed and a tab are lost in the texts of such a
list, because guards have no escape for them.
-/

namespace Runbook.Run
open Reference Guard

/-! ## A reference to a field in a guard -/

/-- The body of a reference to a field. -/
def fieldBody (step field : String) : List Char :=
  step.toList ++ '.' :: field.toList

theorem isBody_fieldBody {step field : String} (hs : IsName step) (hf : IsName field) :
    IsBody (fieldBody step field) :=
  List.forall_mem_append.mpr ⟨hs.2, isBody_cons.mpr ⟨by decide, hf.2⟩⟩

/-- **A field is bound**: a reference can name the step and the field, and the output of the step is a
mapping in which the field has this value. -/
structure HasField (outputs : Bindings) (step field : String) (v : Json) : Prop where
  /-- The name of the step. -/
  step_isName : IsName step
  /-- The name of the field. -/
  field_isName : IsName field
  /-- The output of the step. -/
  bound : ∃ members, outputs.get? step = some (.object members) ∧ Table.get? members field = some v

/-- **A field of an output between two literals** becomes its text, if this is not the reference
without its braces. -/
theorem HasField.substitute_between {outputs : Bindings} {step field : String} {v : Json}
    (h : HasField outputs step field v) {before after : List Char} (hbefore : IsLiteral before)
    (hafter : IsLiteral after) (hvalue : v.display.toList ≠ '$' :: fieldBody step field) :
    substitute outputs (String.ofList (before ++ written (fieldBody step field) ++ after)) =
      String.ofList (before ++ v.display.toList ++ after) := by
  obtain ⟨members, hstep, hfield⟩ := h.bound
  have htext : (ofBody (fieldBody step field)).textIn outputs = v.display :=
    textIn_field h.step_isName.1 h.field_isName.1 hstep hfield
  have hbody : IsBody (fieldBody step field) := isBody_fieldBody h.step_isName h.field_isName
  rw [← htext] at hvalue ⊢
  exact Reference.substitute_between outputs hbefore hbody hafter hvalue

/-! ## Fields in quotes -/

/-- **A text that single quotes hold as it is**: without such a quote, a backslash and a line break. -/
def IsPlain (s : String) : Prop :=
  ∀ c ∈ s.toList, c ≠ '\'' ∧ c ≠ '\\' ∧ c ≠ '\n' ∧ c ≠ '\r'

instance (s : String) : Decidable (IsPlain s) :=
  List.decidableBAll _ s.toList

/-- **What an operator may be written with**: no character of it is a dollar sign, a closing brace or a
line break. -/
def IsSign (s : String) : Prop :=
  ∀ c ∈ s.toList, c ≠ '$' ∧ c ≠ '\x7d' ∧ c ≠ '\n' ∧ c ≠ '\r'

instance (s : String) : Decidable (IsSign s) :=
  List.decidableBAll _ s.toList

/-- The guard that compares a field in single quotes with a literal. -/
def quotedComparison (operator step field literal : String) : String :=
  "'$\x7b" ++ step ++ "." ++ field ++ "\x7d' " ++ operator ++ " '" ++ literal ++ "'"

example : quotedComparison "==" "a" "f" "x" = "'$\x7ba.f\x7d' == 'x'" := rfl

theorem cut_plain {s : String} (h : IsPlain s) :
    Cut ('\'' :: (s.toList ++ ['\''])) (Grammar.Primary.text s).tokens := by
  have hself : StandsFor '\'' s.toList s.toList := .self fun c hc => ⟨(h c hc).1, (h c hc).2.1⟩
  have hcut := Cut.quoted rfl hself
  rwa [String.ofList_toList] at hcut

/-- The guard that compares two plain texts compares them. -/
theorem read_plain {s t sign : String} {operator : Grammar.Operator} (hs : IsPlain s)
    (ht : IsPlain t) (hsign : Cut sign.toList operator.tokens) :
    read (String.ofList ('\'' :: (s.toList ++ '\'' :: ' ' ::
      (sign.toList ++ ' ' :: '\'' :: (t.toList ++ ['\'']))))) =
      .ok (operator.denoted (.literal (.text s)) (.literal (.text t))) := by
  refine read_between (.primary (.text s)) (.primary (.text t)) (cut_plain hs) hsign (cut_plain ht)
    (Nat.zero_le _) (Nat.zero_le _) ?_
  simp

theorem cut_equal : Cut "==".toList (Grammar.Operator.tokens .equal) :=
  .one rfl rfl

theorem cut_notEqual : Cut "!=".toList (Grammar.Operator.tokens .notEqual) :=
  .one rfl rfl

/-- What a comparison in quotes is read as, once the field is inserted. -/
theorem read_quotedComparison (operator : Grammar.Operator) {outputs : Bindings}
    {step field v literal sign : String} (h : HasField outputs step field (.text v))
    (hv : IsPlain v) (hne : v ≠ "$" ++ step ++ "." ++ field) (hl : IsPlain literal)
    (hopened : ¬ ['$', '\x7b'] <:+: literal.toList) (hsign : Cut sign.toList operator.tokens)
    (hchars : IsSign sign) :
    read (withoutBreaks (substitute outputs (quotedComparison sign step field literal))) =
      .ok (operator.denoted (.literal (.text v)) (.literal (.text literal))) := by
  let after : List Char := '\'' :: ' ' :: (sign.toList ++ ' ' :: '\'' :: (literal.toList ++ ['\'']))
  have hguard : quotedComparison sign step field literal =
      String.ofList (['\''] ++ written (fieldBody step field) ++ after) := by
    refine String.toList_injective ?_
    simp [quotedComparison, written, fieldBody, after]
  have hbefore : IsLiteral ['\''] := isLiteral_of_not_opened (by decide)
  have hafter : IsLiteral after := by
    have hend : IsLiteral (literal.toList ++ ['\'']) :=
      (isLiteral_of_not_opened hopened).append (List.forall_mem_singleton.mpr (by decide))
    have hfront : ∀ c ∈ '\'' :: ' ' :: (sign.toList ++ [' ', '\'']), c ≠ '$' := by
      simp only [List.forall_mem_cons, List.forall_mem_append]
      exact ⟨by decide, by decide, fun c hc => (hchars c hc).1, by decide, by decide,
        List.forall_mem_nil _⟩
    have hall := hend.prepend hfront
    simpa [after] using hall
  have hvalue : (Json.text v).display.toList ≠ '$' :: fieldBody step field := by
    intro heq
    change v.toList = _ at heq
    refine hne (String.toList_injective ?_)
    simpa [fieldBody] using heq
  have hline : ∀ c ∈ ['\''] ++ v.toList ++ after, c ≠ '\n' ∧ c ≠ '\r' := by
    simp only [after, List.forall_mem_cons, List.forall_mem_append]
    exact ⟨⟨⟨by decide, List.forall_mem_nil _⟩, fun c hc => (hv c hc).2.2⟩, by decide, by decide,
      fun c hc => (hchars c hc).2.2, by decide, by decide, fun c hc => (hl c hc).2.2, by decide,
      List.forall_mem_nil _⟩
  rw [hguard, h.substitute_between hbefore hafter hvalue, withoutBreaks_eq_self]
  · exact read_plain hv hl hsign
  · rw [IsLine, String.toList_ofList]
    exact hline

/-- **A field in quotes is compared as the text that it is.**  Whatever a plain text looks like, the
guard that compares it with a literal holds exactly if both are the same text, and with the opposite
operator exactly if they are not. -/
theorem quoted_field_compares {outputs : Bindings} {step field v literal : String}
    (h : HasField outputs step field (.text v)) (hv : IsPlain v)
    (hne : v ≠ "$" ++ step ++ "." ++ field) (hl : IsPlain literal)
    (hopened : ¬ ['$', '\x7b'] <:+: literal.toList) :
    (holds (substitute outputs (quotedComparison "==" step field literal)) = true ↔ v = literal) ∧
      (holds (substitute outputs (quotedComparison "!=" step field literal)) = true ↔
        v ≠ literal) := by
  have hequal := read_quotedComparison .equal h hv hne hl hopened cut_equal (by decide)
  have hdiffer := read_quotedComparison .notEqual h hv hne hl hopened cut_notEqual (by decide)
  constructor
  · rw [holds_iff hequal]
    show (∃ w, Except.ok (Value.boolean (v == literal)) = .ok w ∧ w.truthy = true) ↔ _
    simp [Value.truthy]
  · rw [holds_iff hdiffer]
    show (∃ w, Except.ok (Value.boolean (!(v == literal))) = .ok w ∧ w.truthy = true) ↔ _
    simp [Value.truthy]

/-- Fields that look like operators, brackets and a reference. -/
def likeOperators : Bindings :=
  [("a", .object [("f", .text "\"x\" or $\x7bb\x7d in ("), ("g", .text "] not in \x7b\"x\"")])]

/-- Such a field is not the text `True`, and a literal that is written alike is the same text. -/
theorem quoted_field_compares_of_likeOperators :
    holds (substitute likeOperators (quotedComparison "!=" "a" "f" "True")) = true ∧
      holds (substitute likeOperators
        (quotedComparison "==" "a" "g" "] not in \x7b\"x\"")) = true := by
  have hf : HasField likeOperators "a" "f" (.text "\"x\" or $\x7bb\x7d in (") :=
    ⟨by decide, by decide, _, rfl, rfl⟩
  have hg : HasField likeOperators "a" "g" (.text "] not in \x7b\"x\"") :=
    ⟨by decide, by decide, _, rfl, rfl⟩
  constructor
  · exact (quoted_field_compares hf (by decide) (by decide) (by decide) (by decide)).2.mpr (by decide)
  · exact (quoted_field_compares hg (by decide) (by decide) (by decide) (by decide)).1.mpr rfl

/-! ## Lists -/

/-- A search for an operand in a list holds if the operand has a value and the list has that value. -/
theorem search_iff {e list : Expression} {items : List Value}
    (hlist : list.evaluate = .ok (.list items)) :
    (∃ v, (Expression.compare .memberOf e list).evaluate = .ok v ∧ v.truthy = true) ↔
      ∃ w, e.evaluate = .ok w ∧ ∃ item ∈ items, item.same w = true := by
  have hevaluate : (Expression.compare .memberOf e list).evaluate =
      e.evaluate >>= fun w => .ok (.boolean (items.any (·.same w))) := by
    show (e.evaluate >>= fun w => list.evaluate >>= fun v =>
      (v.contains w).map Value.boolean) = _
    rw [hlist]
    rfl
  rw [hevaluate]
  cases e.evaluate with
  | error fault => exact ⟨nofun, nofun⟩
  | ok w =>
    show (∃ v, Except.ok (Value.boolean (items.any (·.same w))) = .ok v ∧ v.truthy = true) ↔ _
    simp [Value.truthy]

/-- The subset relation to a list holds if the operand has a list as its value, and the list has each
item of it. -/
theorem subset_iff {e list : Expression} {items : List Value}
    (hlist : list.evaluate = .ok (.list items)) :
    (∃ v, (Expression.subset e list).evaluate = .ok v ∧ v.truthy = true) ↔
      ∃ ws, e.evaluate = .ok (.list ws) ∧ ∀ w ∈ ws, ∃ item ∈ items, item.same w = true := by
  have hevaluate : (Expression.subset e list).evaluate =
      e.evaluate >>= fun w => (w.subset (.list items)).map Value.boolean := by
    show (e.evaluate >>= fun w => list.evaluate >>= fun v =>
      (w.subset v).map Value.boolean) = _
    rw [hlist]
    rfl
  rw [hevaluate]
  cases e.evaluate with
  | error fault => exact ⟨nofun, nofun⟩
  | ok w =>
    cases w with
    | list ws =>
      show (∃ v, (Value.containsAll (.list items) ws).map Value.boolean = .ok v ∧ _) ↔ _
      rw [Value.containsAll_list]
      show (∃ v, Except.ok (Value.boolean _) = .ok v ∧ v.truthy = true) ↔ _
      simp [Value.truthy]
    | _ => exact ⟨nofun, nofun⟩

/-- **The text is an operand of a guard**, and denotes this expression. -/
def IsOperand (text : String) (e : Expression) : Prop :=
  ∃ operand : Grammar.Signed, Cut (withoutBreaks text).toList operand.tokens ∧
    operand.nesting ≤ maxNesting ∧ operand.denoted = e

/-- The guard that looks for an operand in a field. -/
def fieldSearch (operand operator step field : String) : String :=
  operand ++ " " ++ operator ++ " $\x7b" ++ step ++ "." ++ field ++ "\x7d"

example : fieldSearch "x" "in" "a" "f" = "x in $\x7ba.f\x7d" := rfl

theorem display_array (items : List Json) :
    (Json.array items).display.toList = (Json.array items).chars :=
  String.toList_ofList

theorem chars_array_ne_dollar (items : List Json) (rest : List Char) :
    (Json.array items).chars ≠ '$' :: rest := by
  cases items with
  | nil => exact nofun
  | cons v more => exact nofun

/-- A list has no line breaks in its text. -/
theorem not_break_of_mem_chars {items : List Json} (h : Json.AreListings items) :
    ∀ c ∈ (Json.array items).chars, c ≠ '\n' ∧ c ≠ '\r' := by
  intro c hc
  have hvisible := Json.visible_chars (.array items) (Json.legible_of_areListings items h) c hc
  constructor
  · rintro rfl
    exact absurd hvisible (by decide)
  · rintro rfl
    exact absurd hvisible (by decide)

theorem cut_memberOf : Cut "in".toList (Grammar.Operator.tokens .memberOf) :=
  .one rfl rfl

/-- What a search is read as, once the field is inserted: the list, with each text as it is heard, is
searched. -/
theorem read_fieldSearch (operator : Grammar.Operator) {outputs : Bindings}
    {step field sign text : String} {items : List Json} {e : Expression}
    (h : HasField outputs step field (.array items)) (hitems : Json.AreListings items)
    (hn : (Json.array items).nesting ≤ maxNesting) (htext : IsLiteral text.toList)
    (he : IsOperand text e) (hsign : Cut sign.toList operator.tokens)
    (hchars : IsSign sign) :
    ∃ list, list.evaluate = .ok ((Json.array items).asValue heard) ∧
      read (withoutBreaks (substitute outputs (fieldSearch text sign step field))) =
        .ok (operator.denoted e list) := by
  obtain ⟨operand, hcut, hnesting, rfl⟩ := he
  let between : List Char := ' ' :: (sign.toList ++ [' '])
  have hguard : fieldSearch text sign step field =
      String.ofList (text.toList ++ between ++ written (fieldBody step field) ++ []) := by
    refine String.toList_injective ?_
    simp [fieldSearch, written, fieldBody, between]
  have hbefore : IsLiteral (text.toList ++ between) := by
    refine htext.append ?_
    simp only [between, List.forall_mem_cons, List.forall_mem_append]
    exact ⟨by decide, fun c hc => (hchars c hc).2.1, by decide, List.forall_mem_nil _⟩
  have hvalue : (Json.array items).display.toList ≠ '$' :: fieldBody step field := by
    rw [display_array]
    exact chars_array_ne_dollar items _
  have hback : IsLine (String.ofList (between ++ (Json.array items).chars)) := by
    rw [IsLine, String.toList_ofList]
    simp only [between, List.forall_mem_cons, List.forall_mem_append]
    exact ⟨⟨by decide, fun c hc => (hchars c hc).2.2, by decide, List.forall_mem_nil _⟩,
      not_break_of_mem_chars hitems⟩
  have hinserted : substitute outputs (fieldSearch text sign step field) =
      text ++ String.ofList (between ++ (Json.array items).chars) := by
    rw [hguard, h.substitute_between hbefore isLiteral_nil hvalue]
    refine String.toList_injective ?_
    simp [display_array]
  refine ⟨_, evaluate_literal (.array items) hitems, ?_⟩
  rw [hinserted, withoutBreaks_append, withoutBreaks_eq_self hback]
  refine read_between operand (.primary (literal (.array items))) hcut hsign
    (cut_chars (.array items) hitems) hnesting (Nat.le_trans (nesting_literal_le _) hn) ?_
  simp [between]

/-- **A list in a guard.**  The text of a list of texts, truth values and `null` is read as this list,
with each text as it is heard, which is the list itself exactly if no text of it has a control other
than a line feed or a tab.  Inserted into a guard, the list that is heard is searched: for an operand,
and for each item of an operand. -/
theorem list_is_searched {items : List Json} (hitems : Json.AreListings items)
    (hn : (Json.array items).nesting ≤ 64) :
    (∃ e, read (Json.array items).display = .ok e ∧
        e.evaluate = .ok ((Json.array items).asValue heard)) ∧
      ((Json.array items).asValue heard = (Json.array items).asValue id ↔
        ∀ s ∈ (Json.array items).texts, ∀ c ∈ s.toList, isMisheard c = false) ∧
      ∀ (outputs : Bindings) (step field : String), HasField outputs step field (.array items) →
        ∀ (operand : String) (e : Expression), IsLiteral operand.toList → IsOperand operand e →
          (holds (substitute outputs (fieldSearch operand "in" step field)) = true ↔
            ∃ w, e.evaluate = .ok w ∧ ∃ item ∈ Json.asValues heard items, item.same w = true) ∧
          (holds (substitute outputs (fieldSearch operand "属于" step field)) = true ↔
            ∃ ws, e.evaluate = .ok (.list ws) ∧
              ∀ w ∈ ws, ∃ item ∈ Json.asValues heard items, item.same w = true) := by
  refine ⟨read_compact hitems hn, ?_, ?_⟩
  · rw [Json.asValue_eq_iff]
    exact forall₂_congr fun s _ => heard_eq_self_iff s
  intro outputs step field h operand e hliteral he
  constructor
  · obtain ⟨list, hlist, hread⟩ := read_fieldSearch .memberOf h hitems hn hliteral he cut_memberOf
      (by decide)
    rw [holds_iff hread]
    exact search_iff hlist
  · obtain ⟨list, hlist, hread⟩ := read_fieldSearch .subset h hitems hn hliteral he .subsetSign
      (by decide)
    rw [holds_iff hread]
    exact subset_iff hlist

/-- An output with texts, nothing and a list in a list. -/
def mixedList : Bindings :=
  [("a", .object [("f", .array [.text "\r", .array [.null, .text "x\n"], .boolean true])])]

/-- A text with a carriage return is heard as another, and the rest of the list is searched as it
is. -/
theorem list_is_searched_of_mixedList :
    (Json.asValue heard (.array [.text "\r", .array [.null, .text "x\n"], .boolean true]) ≠
        Json.asValue id (.array [.text "\r", .array [.null, .text "x\n"], .boolean true])) ∧
      holds (substitute mixedList (fieldSearch "'r'" "in" "a" "f")) = true ∧
      holds (substitute mixedList (fieldSearch "[true]" "属于" "a" "f")) = true := by
  have hitems : Json.AreListings [.text "\r", .array [.null, .text "x\n"], .boolean true] :=
    ⟨trivial, ⟨trivial, trivial, trivial⟩, trivial, trivial⟩
  obtain ⟨_, hsame, hsearch⟩ := list_is_searched hitems (by decide)
  have hoperand := hsearch mixedList "a" "f" ⟨by decide, by decide, _, rfl, rfl⟩
  have hr : IsPlain "r" := by decide
  have htext : IsOperand "'r'" (.literal (.text "r")) :=
    ⟨.primary (.text "r"), cut_plain hr, by decide, rfl⟩
  have hlist : IsOperand "[true]" (.list [.literal (.boolean true)]) :=
    ⟨.primary (literal (.array [.boolean true])),
      cut_chars (.array [.boolean true]) ⟨trivial, trivial⟩, by decide, rfl⟩
  refine ⟨fun h => absurd (hsame.mp h "\r" (by decide) '\r' (by decide)) (by decide), ?_, ?_⟩
  · exact (hoperand "'r'" _ (isLiteral_of_not_opened (by decide)) htext).1.mpr
      ⟨.text "r", rfl, .text "r", List.mem_cons_self, rfl⟩
  · refine (hoperand "[true]" _ (isLiteral_of_not_opened (by decide)) hlist).2.mpr
      ⟨[.boolean true], rfl, ?_⟩
    rintro w hw
    obtain rfl := List.mem_singleton.mp hw
    exact ⟨.boolean true, by simp [Json.asValues, Json.asValue], by decide⟩

/-- A list whose text is read as another list: a carriage return is heard as the letter of its
escape. -/
theorem list_is_misheard :
    Json.AreListings [.text "\r"] ∧ (Json.array [.text "\r"]).nesting ≤ 64 ∧
      ¬ ∃ e, read (Json.array [.text "\r"]).display = .ok e ∧
          e.evaluate = .ok ((Json.array [.text "\r"]).asValue id) := by
  have hlisting : Json.AreListings [.text "\r"] := ⟨trivial, trivial⟩
  refine ⟨hlisting, by decide, ?_⟩
  rintro ⟨e, hread, hvalue⟩
  obtain ⟨e', hread', hheard⟩ := read_compact hlisting (by decide)
  obtain rfl : e = e' := Except.ok.inj (hread.symm.trans hread')
  have hsame : Value.list [.text "r"] = .list [.text "\r"] :=
    Except.ok.inj (hheard.symm.trans hvalue)
  simp at hsame

end Runbook.Run
