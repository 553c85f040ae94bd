import Runbook.Reference
import Mathlib.Data.List.Infix

/-!
# Substitution is one pass

A text is a literal and then references, each with the literal after it (`Composed`); every text is
one (`Composed.exists_source`).  Replacing the references of a text puts a value in the place of
each of them and leaves the literals as they are (`Composed.filled`).  What a value looks like makes
no difference, because the references are those of the source.
-/

namespace Runbook.Reference

/-! ## What a body stands for -/

theorem splitAtPoint_of_not_mem {cs : List Char} (h : '.' ∉ cs) : splitAtPoint cs = (cs, none) := by
  induction cs with
  | nil => rfl
  | cons c rest ih =>
    have hc : c ≠ '.' := fun heq => h (heq ▸ List.mem_cons_self)
    rw [splitAtPoint, if_neg hc, ih fun hmem => h (List.mem_cons_of_mem c hmem)]

theorem splitAtPoint_append {before : List Char} (h : '.' ∉ before) (after : List Char) :
    splitAtPoint (before ++ '.' :: after) = (before, some after) := by
  induction before with
  | nil => rfl
  | cons c rest ih =>
    have hc : c ≠ '.' := fun heq => h (heq ▸ List.mem_cons_self)
    rw [List.cons_append, splitAtPoint, if_neg hc, ih fun hmem => h (List.mem_cons_of_mem c hmem)]

theorem ofBody_of_not_mem {body : List Char} (h : '.' ∉ body) :
    ofBody body = ⟨String.ofList body, none⟩ := by
  rw [ofBody, splitAtPoint_of_not_mem h]
  rfl

theorem ofBody_append {step : List Char} (h : '.' ∉ step) (after : List Char) :
    ofBody (step ++ '.' :: after) =
      ⟨String.ofList step, some (String.ofList (splitAtPoint after).1)⟩ := by
  rw [ofBody, splitAtPoint_append h]
  rfl

/-- The characters up to the first point are the first part of a text that is cut at its points. -/
theorem exists_splitOn_eq (cs : List Char) :
    ∃ rest, cs.splitOn '.' = (splitAtPoint cs).1 :: rest := by
  by_cases h : '.' ∈ cs
  · obtain ⟨before, after, rfl, hbefore⟩ := List.eq_append_cons_of_mem h
    rw [splitAtPoint_append hbefore, List.splitOn_append_cons_self_of_not_mem hbefore]
    exact ⟨_, rfl⟩
  · rw [splitAtPoint_of_not_mem h, List.splitOn_eq_singleton h]
    exact ⟨_, rfl⟩

/-- **What a body stands for.**  A body without a point is a step, and stands for the text of its
output; one with a point is a step and a field, and what follows a second point is not looked at.  A
field stands for its text in a mapping, which is empty if the field is missing or `null`. -/
def meaning (outputs : Bindings) (body : List Char) : String :=
  match (body.splitOn '.').map String.ofList with
  | [] => noValue
  | [step] =>
    match outputs.get? step with
    | none | some .null => noValue
    | some output => output.display
  | step :: field :: _ =>
    match outputs.get? step with
    | some (.object members) => ((Table.get? members field).map Json.display).getD ""
    | _ => noValue

theorem textIn_ofBody (outputs : Bindings) (body : List Char) :
    (ofBody body).textIn outputs = meaning outputs body := by
  unfold meaning
  by_cases h : '.' ∈ body
  · obtain ⟨step, after, rfl, hstep⟩ := List.eq_append_cons_of_mem h
    obtain ⟨rest, hrest⟩ := exists_splitOn_eq after
    rw [ofBody_append hstep, List.splitOn_append_cons_self_of_not_mem hstep, hrest]
    simp only [textIn, List.map_cons]
    cases outputs.get? (String.ofList step) with
    | none => rfl
    | some output =>
      cases output with
      | object members =>
        cases hfield : Table.get? members (String.ofList (splitAtPoint after).1) <;> simp [hfield]
      | _ => rfl
  · rw [ofBody_of_not_mem h, List.splitOn_eq_singleton h]
    simp only [textIn, List.map_cons, List.map_nil]
    cases outputs.get? (String.ofList body) with
    | none => rfl
    | some output => cases output <;> rfl

/-! ## Where references stand -/

/-- **What may stand between the braces** of a reference. -/
def IsBody (cs : List Char) : Prop :=
  ∀ c ∈ cs, c ≠ '\x7b' ∧ c ≠ '\x7d' ∧ c ≠ '^'

instance (cs : List Char) : Decidable (IsBody cs) :=
  List.decidableBAll _ cs

/-- The reference with this body, as it is written. -/
def written (body : List Char) : List Char :=
  '$' :: '\x7b' :: (body ++ ['\x7d'])

/-- **A literal**: a text in which no reference is written. -/
def IsLiteral (cs : List Char) : Prop :=
  ∀ body, IsBody body → ¬ written body <:+: cs

/-- A text in which no reference is opened is a literal. -/
theorem isLiteral_of_not_opened {cs : List Char} (h : ¬ ['$', '\x7b'] <:+: cs) : IsLiteral cs :=
  fun body _ hwithin =>
    h (((List.prefix_append ['$', '\x7b'] (body ++ ['\x7d'])).isInfix).trans hwithin)

theorem isLiteral_nil : IsLiteral [] :=
  fun _ _ hwithin => List.cons_ne_nil _ _ (List.infix_nil.mp hwithin)

theorem IsLiteral.tail {c : Char} {cs : List Char} (h : IsLiteral (c :: cs)) : IsLiteral cs :=
  fun body hbody hwithin => h body hbody (List.infix_cons hwithin)

/-- A literal is made no reference by characters before it that begin none. -/
theorem IsLiteral.prepend {cs : List Char} (h : IsLiteral cs) {front : List Char}
    (hfront : ∀ c ∈ front, c ≠ '$') : IsLiteral (front ++ cs) := by
  induction front with
  | nil => exact h
  | cons c rest ih =>
    obtain ⟨hc, hrest⟩ := List.forall_mem_cons.mp hfront
    intro body hbody hwithin
    rcases List.infix_cons_iff.mp hwithin with hbegins | hinside
    · exact hc (List.cons_prefix_cons.mp hbegins).1.symm
    · exact ih hrest body hbody hinside

/-- A literal is made no reference by characters after it that end none. -/
theorem IsLiteral.append {cs : List Char} (h : IsLiteral cs) {back : List Char}
    (hback : ∀ c ∈ back, c ≠ '\x7d') : IsLiteral (cs ++ back) := by
  induction back using List.reverseRecOn with
  | nil => rwa [List.append_nil]
  | append_singleton back c ih =>
    obtain ⟨hrest, hc⟩ := List.forall_mem_append.mp hback
    intro body hbody hwithin
    rw [← List.append_assoc] at hwithin
    rcases List.infix_concat_iff.mp hwithin with hends | hinside
    · rcases List.suffix_concat_iff.mp hends with hnil | ⟨start, hstart, -⟩
      · cases hnil
      · have hlast : (written body).getLast? = some '\x7d' :=
          List.getLast?_concat (l := '$' :: '\x7b' :: body)
        rw [hstart, List.getLast?_concat] at hlast
        exact hc c List.mem_cons_self (Option.some.inj hlast)
    · exact ih hrest body hbody hinside

theorem isBody_cons {c : Char} {cs : List Char} :
    IsBody (c :: cs) ↔ (c ≠ '\x7b' ∧ c ≠ '\x7d' ∧ c ≠ '^') ∧ IsBody cs :=
  List.forall_mem_cons

/-- **A body is found** up to the first closing brace. -/
theorem body?_eq_some_iff {cs body tail : List Char} :
    body? cs = some (body, tail) ↔ IsBody body ∧ cs = body ++ '\x7d' :: tail := by
  induction cs generalizing body with
  | nil => simp [body?]
  | cons c rest ih =>
    unfold body?
    by_cases hclose : c = '\x7d'
    · subst hclose
      rw [if_pos rfl]
      cases body with
      | nil => simp [IsBody, eq_comm]
      | cons d body =>
        refine iff_of_false (by simp) fun ⟨hbody, heq⟩ => ?_
        exact (isBody_cons.mp hbody).1.2.1 (List.cons.inj heq).1.symm
    · rw [if_neg hclose]
      by_cases hother : c = '\x7b' ∨ c = '^'
      · rw [if_pos hother]
        refine iff_of_false nofun fun ⟨hbody, heq⟩ => ?_
        cases body with
        | nil => exact hclose (List.cons.inj heq).1
        | cons d body =>
          obtain ⟨rfl, -⟩ := List.cons.inj heq
          obtain ⟨hopen, -, hcaret⟩ := (isBody_cons.mp hbody).1
          exact hother.elim hopen hcaret
      · rw [if_neg hother]
        obtain ⟨hopen, hcaret⟩ := not_or.mp hother
        cases body with
        | nil => simp [hclose]
        | cons d body =>
          rw [isBody_cons, Option.map_eq_some_iff]
          constructor
          · rintro ⟨⟨found, rest'⟩, hfound, heq⟩
            cases heq
            obtain ⟨hbody, rfl⟩ := ih.mp hfound
            exact ⟨⟨⟨hopen, hclose, hcaret⟩, hbody⟩, rfl⟩
          · rintro ⟨⟨-, hbody⟩, heq⟩
            obtain ⟨rfl, rfl⟩ := List.cons.inj heq
            exact ⟨(body, tail), ih.mpr ⟨hbody, rfl⟩, rfl⟩

/-- A reference is read as one. -/
theorem segments_written {body : List Char} (h : IsBody body) (rest : List Char) :
    segments (written body ++ rest) = .body body :: segments rest := by
  have hfound : body? (body ++ '\x7d' :: rest) = some (body, rest) :=
    body?_eq_some_iff.mpr ⟨h, rfl⟩
  have hsource : written body ++ rest = '$' :: '\x7b' :: (body ++ '\x7d' :: rest) := by
    simp [written]
  rw [hsource, segments]
  split
  · rename_i found tail heq
    obtain ⟨rfl, rfl⟩ : body = found ∧ rest = tail := by
      simpa using Option.some.inj (hfound.symm.trans heq)
    rfl
  · rename_i heq
    cases hfound.symm.trans heq

/-- Any other character stands for itself. -/
theorem segments_plain {c : Char} {rest : List Char}
    (h : ∀ body, IsBody body → ¬ written body <+: c :: rest) :
    segments (c :: rest) = .plain c :: segments rest := by
  rw [segments.eq_def]
  split
  · rename_i heq
    cases heq
  · rename_i rest' heq
    obtain ⟨rfl, rfl⟩ := List.cons.inj heq
    split
    · rename_i body tail hfound
      obtain ⟨hbody, rfl⟩ := body?_eq_some_iff.mp hfound
      exact absurd ⟨tail, by simp [written]⟩ (h body hbody)
    · rfl
  · rename_i heq
    obtain ⟨rfl, rfl⟩ := List.cons.inj heq
    rfl

/-- The closing brace of a reference stands before the next reference. -/
theorem prefix_of_prefix_append {body literal rest : List Char} (h : IsBody body)
    (hbegins : body ++ ['\x7d'] <+: literal ++ '$' :: '\x7b' :: rest) :
    body ++ ['\x7d'] <+: literal := by
  induction literal generalizing body with
  | nil =>
    exfalso
    match body, hbegins with
    | [], hbegins => simp at hbegins
    | [c], hbegins => simp at hbegins
    | c :: d :: body, hbegins =>
      simp only [List.nil_append, List.cons_append, List.cons_prefix_cons] at hbegins
      exact (isBody_cons.mp (isBody_cons.mp h).2).1.1 hbegins.2.1
  | cons c literal ih =>
    cases body with
    | nil => simpa using hbegins
    | cons d body =>
      simp only [List.cons_append, List.cons_prefix_cons] at hbegins ⊢
      exact ⟨hbegins.1, ih (isBody_cons.mp h).2 hbegins.2⟩

/-- No reference begins in a literal, whether the text ends after it or a reference follows. -/
theorem IsLiteral.not_prefix {literal rest body : List Char} (h : IsLiteral literal)
    (hne : literal ≠ []) (hrest : rest = [] ∨ ∃ more, rest = '$' :: '\x7b' :: more)
    (hbody : IsBody body) : ¬ written body <+: literal ++ rest := by
  intro hbegins
  refine h body hbody (List.IsPrefix.isInfix ?_)
  obtain rfl | ⟨more, rfl⟩ := hrest
  · rwa [List.append_nil] at hbegins
  · match literal, hne, hbegins with
    | [c], _, hbegins => simp [written] at hbegins
    | c :: d :: literal, _, hbegins =>
      simp only [written, List.cons_append, List.cons_prefix_cons] at hbegins ⊢
      exact ⟨hbegins.1, hbegins.2.1, prefix_of_prefix_append hbody hbegins.2.2⟩

theorem segments_literal {literal rest : List Char} (h : IsLiteral literal)
    (hrest : rest = [] ∨ ∃ more, rest = '$' :: '\x7b' :: more) :
    segments (literal ++ rest) = literal.map .plain ++ segments rest := by
  induction literal with
  | nil => rfl
  | cons c literal ih =>
    have hplain : segments (c :: (literal ++ rest)) = .plain c :: segments (literal ++ rest) :=
      segments_plain fun body hbody => h.not_prefix (List.cons_ne_nil c literal) hrest hbody
    rw [List.cons_append, hplain, ih h.tail]
    rfl

/-! ## Texts as literals and references -/

/-- **A reference and the literal after it.** -/
structure Part where
  /-- What stands between the braces. -/
  body : List Char
  /-- The text up to the next reference. -/
  literal : List Char
  isBody : IsBody body
  isLiteral : IsLiteral literal

/-- **A text as it is composed**: a literal, and then references, each with the literal after it. -/
structure Composed where
  /-- The text up to the first reference. -/
  start : List Char
  /-- The references, with what follows each of them. -/
  parts : List Part
  isLiteral : IsLiteral start

/-- The text of a row of parts. -/
def Part.sources (parts : List Part) : List Char :=
  parts.flatMap fun p => written p.body ++ p.literal

/-- The text of a row of parts with a value for each reference. -/
def Part.fillings (outputs : Bindings) (parts : List Part) : List Char :=
  parts.flatMap fun p => (meaning outputs p.body).toList ++ p.literal

namespace Composed

/-- The text itself. -/
def source (t : Composed) : List Char :=
  t.start ++ Part.sources t.parts

/-- **The text with a value in the place of each reference.** -/
def filled (outputs : Bindings) (t : Composed) : List Char :=
  t.start ++ Part.fillings outputs t.parts

end Composed

theorem sources_opens (parts : List Part) :
    Part.sources parts = [] ∨ ∃ more, Part.sources parts = '$' :: '\x7b' :: more := by
  cases parts with
  | nil => exact Or.inl rfl
  | cons p rest => exact Or.inr ⟨_, rfl⟩

theorem resolve_plain (outputs : Bindings) (cs : List Char) :
    (cs.map Segment.plain).flatMap (Segment.resolve outputs) = cs := by
  induction cs with
  | nil => rfl
  | cons c rest ih => exact congrArg (c :: ·) ih

theorem resolve_sources (outputs : Bindings) (parts : List Part) :
    resolve outputs (Part.sources parts) = Part.fillings outputs parts := by
  unfold resolve
  induction parts with
  | nil => simp [Part.sources, Part.fillings, segments]
  | cons p rest ih =>
    have hsegments : segments (Part.sources (p :: rest)) =
        .body p.body :: (p.literal.map .plain ++ segments (Part.sources rest)) := by
      show segments (written p.body ++ p.literal ++ Part.sources rest) = _
      rw [List.append_assoc, segments_written p.isBody,
        segments_literal p.isLiteral (sources_opens rest)]
    rw [hsegments, List.flatMap_cons, List.flatMap_append, resolve_plain, ih, Segment.resolve,
      textIn_ofBody, ← List.append_assoc]
    rfl

/-- **Every reference is replaced, and nothing else.** -/
theorem resolve_source (outputs : Bindings) (t : Composed) :
    resolve outputs t.source = t.filled outputs := by
  have hrest := resolve_sources outputs t.parts
  unfold resolve at hrest ⊢
  rw [Composed.source, segments_literal t.isLiteral (sources_opens t.parts), List.flatMap_append,
    resolve_plain, hrest, Composed.filled]

/-- **Every text is composed** of literals and references. -/
theorem Composed.exists_source (cs : List Char) : ∃ t : Composed, t.source = cs := by
  induction hlength : cs.length using Nat.strongRecOn generalizing cs with
  | ind n ih =>
    by_cases hfirst : ∃ body tail, IsBody body ∧ cs = written body ++ tail
    · -- A reference comes first: the literal after it is what the rest of the text starts with.
      obtain ⟨body, tail, hbody, rfl⟩ := hfirst
      have hshorter : tail.length < n := by
        rw [← hlength]
        simp [written]
        omega
      obtain ⟨t, rfl⟩ := ih tail.length hshorter tail rfl
      refine ⟨⟨[], ⟨body, t.start, hbody, t.isLiteral⟩ :: t.parts, isLiteral_nil⟩, ?_⟩
      simp [source, Part.sources]
    · cases cs with
      | nil => exact ⟨⟨[], [], isLiteral_nil⟩, rfl⟩
      | cons c rest =>
        obtain ⟨t, rfl⟩ := ih rest.length (by simp [← hlength]) rest rfl
        refine ⟨⟨c :: t.start, t.parts, fun body hbody hwithin => ?_⟩, rfl⟩
        rcases List.infix_cons_iff.mp hwithin with ⟨tail, htail⟩ | hrest
        · have hsource : c :: t.source = written body ++ (tail ++ Part.sources t.parts) := by
            rw [← List.append_assoc, htail]
            rfl
          exact hfirst ⟨body, _, hbody, hsource⟩
        · exact t.isLiteral body hbody hrest

/-! ## The hint -/

theorem isUnresolved_source_iff (outputs : Bindings) (t : Composed) :
    isUnresolved t.source (t.filled outputs) = true ↔
      t.parts ≠ [] ∧ t.filled outputs = t.source.filter fun c => c ≠ '\x7b' ∧ c ≠ '\x7d' := by
  have hbraces : (fun c => decide (c ≠ '\x7b' ∧ c ≠ '\x7d')) = fun c => !isBrace c := by
    funext c
    simp [isBrace, Bool.beq_eq_decide_eq]
  rw [hbraces]
  cases hparts : t.parts with
  | nil =>
    -- Without a reference the result is the source, which keeps its braces.
    have hsame : t.filled outputs = t.source := by
      simp [Composed.filled, Composed.source, Part.fillings, Part.sources, hparts]
    simp only [ne_eq, not_true_eq_false, false_and, iff_false, hsame]
    intro h
    simp only [isUnresolved, Bool.and_eq_true, List.contains_iff_mem, beq_iff_eq] at h
    have hkept := List.filter_eq_self.mp h.2.symm '\x7b' h.1.1
    simp [isBrace] at hkept
  | cons p rest =>
    have hopen : '\x7b' ∈ t.source := by simp [Composed.source, Part.sources, written, hparts]
    have hclose : '\x7d' ∈ t.source := by simp [Composed.source, Part.sources, written, hparts]
    simp [isUnresolved, hopen, hclose]

/-- **A reference between two literals becomes the text that it stands for**, if this is not the text
of the reference without its braces. -/
theorem substitute_between (outputs : Bindings) {before body after : List Char}
    (hbefore : IsLiteral before) (hbody : IsBody body) (hafter : IsLiteral after)
    (hvalue : ((ofBody body).textIn outputs).toList ≠ '$' :: body) :
    substitute outputs (String.ofList (before ++ written body ++ after)) =
      String.ofList (before ++ ((ofBody body).textIn outputs).toList ++ after) := by
  let t : Composed := ⟨before, [⟨body, after, hbody, hafter⟩], hbefore⟩
  have hsource : t.source = before ++ written body ++ after := by
    simp [t, Composed.source, Part.sources]
  have hfilled : t.filled outputs = before ++ ((ofBody body).textIn outputs).toList ++ after := by
    simp [t, Composed.filled, Part.fillings, textIn_ofBody]
  have hresolved : isUnresolved t.source (t.filled outputs) = false := by
    refine Bool.eq_false_iff.mpr fun h => hvalue ?_
    obtain ⟨-, hsame⟩ := (isUnresolved_source_iff outputs t).mp h
    -- The result has no braces, so the literals have none that could have been taken away.
    have hnone : ∀ c ∈ t.filled outputs, decide (c ≠ '\x7b' ∧ c ≠ '\x7d') = true := by
      rw [hsame]
      exact fun c hc => (List.mem_filter.mp hc).2
    rw [hfilled] at hnone hsame
    obtain ⟨hfront, hback⟩ := List.forall_mem_append.mp hnone
    have hkept : ∀ c ∈ body, decide (c ≠ '\x7b' ∧ c ≠ '\x7d') = true :=
      fun c hc => decide_eq_true ⟨(hbody c hc).1, (hbody c hc).2.1⟩
    have hwritten : (written body).filter (fun c => decide (c ≠ '\x7b' ∧ c ≠ '\x7d')) =
        '$' :: body := by
      show '$' :: (body ++ ['\x7d']).filter _ = _
      rw [List.filter_append, List.filter_eq_self.mpr hkept]
      exact congrArg ('$' :: ·) (List.append_nil body)
    rw [hsource, List.filter_append, List.filter_append, List.filter_eq_self.mpr hback,
      List.filter_eq_self.mpr (List.forall_mem_append.mp hfront).1, hwritten] at hsame
    exact List.append_cancel_left (List.append_cancel_right hsame)
  unfold substitute
  dsimp only
  rw [String.toList_ofList, ← hsource, resolve_source, hresolved, hfilled]
  rfl

/-- A reference alone becomes the text that it stands for, if this does not begin with a dollar
sign, as the text without the braces does. -/
theorem substitute_written (outputs : Bindings) {body : List Char} (h : IsBody body)
    (hhead : ∀ rest, ((ofBody body).textIn outputs).toList ≠ '$' :: rest) :
    substitute outputs (String.ofList (written body)) = (ofBody body).textIn outputs := by
  have hbetween := substitute_between outputs isLiteral_nil h isLiteral_nil (hhead body)
  simpa using hbetween

/-- **Substitution is one pass from left to right.**  The result is the text with a value in the
place of each reference, whatever the values and the literals look like; the hint follows it if
there are references and the result is the text without its braces. -/
theorem substitute_source (outputs : Bindings) (t : Composed) :
    substitute outputs (String.ofList t.source) =
      if t.parts ≠ [] ∧ t.filled outputs = t.source.filter fun c => c ≠ '\x7b' ∧ c ≠ '\x7d' then
        String.ofList (t.filled outputs) ++ unresolvedHint
      else String.ofList (t.filled outputs) := by
  unfold substitute
  simp only [String.toList_ofList, resolve_source, isUnresolved_source_iff]

/-- A field of `s` after a dollar sign of its own, and then all of `t`. -/
def fieldThenWhole : Composed where
  start := ['$']
  parts := [⟨['s', '.', 'f'], [], by decide, isLiteral_nil⟩, ⟨['t'], [], by decide, isLiteral_nil⟩]
  isLiteral := isLiteral_of_not_opened (by decide)

/-- A value that looks like a reference is left alone, even where the reference is to a step that
has an output; values that look like references without their braces call for the hint. -/
theorem substitute_source_of_fieldThenWhole :
    substitute [("s", .object [("f", .text "$\x7bt\x7d")]), ("t", .ofInt 7)]
        "$$\x7bs.f\x7d$\x7bt\x7d" = "$$\x7bt\x7d7" ∧
      substitute [("s", .object [("f", .text "$s.f")]), ("t", .text "$t")]
        "$$\x7bs.f\x7d$\x7bt\x7d" = "$$s.f$t" ++ unresolvedHint :=
  ⟨(substitute_source [("s", .object [("f", .text "$\x7bt\x7d")]), ("t", .ofInt 7)]
      fieldThenWhole).trans rfl,
    (substitute_source [("s", .object [("f", .text "$s.f")]), ("t", .text "$t")]
      fieldThenWhole).trans rfl⟩

end Runbook.Reference
