import Runbook.Proofs.Guard.Height

/-!
# Readers that count

The readers of guards again, with a count that is raised before something nested is read and lowered
after it, with or without an error (`Counting.nested`).  They call each other as long as there are
tokens, and nothing but the count keeps them from nesting deeper.

Each of them agrees with the reader that is built from the readers of the next depth
(`agrees_disjunction` and those beside it, by recursion on the tokens): it has the same result, and
the count is what it was before.  So reading is bounded for every text, and with the height of what is
read so is evaluation (`guard_recursion_bounded`).
-/

namespace Runbook.Guard

/-- **Something nested was read, or was refused**: the count before, meanwhile and after. -/
structure Visit where
  /-- The count before. -/
  before : Nat
  /-- The count while it was read. -/
  inside : Nat
  /-- The count after. -/
  after : Nat

/-- The count, and how it went so far. -/
structure Count where
  /-- How many levels enclose what is read now. -/
  depth : Nat
  /-- What was read one level deeper, in the order in which it ended. -/
  visits : List Visit

/-- A reader that counts. -/
abbrev Counting (α : Type) := ExceptT SyntaxError (StateM Count) α

namespace Counting

/-- **Reads one level deeper** what stands at `offset`, unless that is too deep. -/
def nested {α : Type} (offset : Nat) (reader : Counting α) : Counting α :=
  ExceptT.mk fun c =>
    if maxNesting ≤ c.depth then
      (.error ⟨offset, .nestedTooDeep maxNesting⟩,
        { c with visits := c.visits ++ [⟨c.depth, c.depth, c.depth⟩] })
    else
      let (result, inner) := reader.run { c with depth := c.depth + 1 }
      let after := inner.depth - 1
      (result, ⟨after, inner.visits ++ [⟨c.depth, c.depth + 1, after⟩]⟩)

/-- What follows a reader starts from the count that it leaves. -/
theorem run_bind {α β : Type} (m : Counting α) (f : α → Counting β) (c : Count) :
    (m >>= f).run c =
      match m.run c with
      | (.ok a, next) => (f a).run next
      | (.error e, next) => (.error e, next) := by
  show (do let (result, next) ← m.run c; ExceptT.bindCont f result next : Id _) = _
  rcases m.run c with ⟨_ | _, _⟩ <;> rfl

theorem length_lt_of_rest {α : Type} {bound : Nat} (p : Parsed α bound) {l : Lexeme}
    {rest : List Lexeme} (h : p.rest = l :: rest) : rest.length < bound := by
  have := p.shorter
  simp only [h, List.length_cons] at this
  omega

/-- One term and further ones, each after a token that `isLink` accepts; `again` reads those after such
a token. -/
def row {input : List Lexeme} (isLink : Token → Bool)
    (term : Counting (Parsed Expression input.length))
    (again : (rest : List Lexeme) → rest.length < input.length →
      Counting (Parsed (List Expression) rest.length)) :
    Counting (Parsed (List Expression) input.length) := do
  let first ← term
  match h : first.rest with
  | [] => return first.map ([·])
  | l :: rest =>
    if isLink l.token then
      let more ← again rest (length_lt_of_rest first h)
      return (more.map (first.value :: ·)).widen (Nat.le_of_lt (length_lt_of_rest first h))
    else return first.map ([·])

-- Ten for each token that is left, and the rank of a reader among those that read the same tokens.
mutual

/-- Alternatives. -/
def disjunction (stop : Nat) (input : List Lexeme) : Counting (Parsed Expression input.length) := do
  let found ← disjuncts stop input
  return found.map (join .any)
termination_by 10 * input.length + 8

/-- Conjunctions joined by `or`. -/
def disjuncts (stop : Nat) (input : List Lexeme) :
    Counting (Parsed (List Expression) input.length) :=
  row isDisjunction (conjunction stop input) fun rest _shorter => disjuncts stop rest
termination_by 10 * input.length + 7

/-- A conjunction. -/
def conjunction (stop : Nat) (input : List Lexeme) : Counting (Parsed Expression input.length) := do
  let found ← conjuncts stop input
  return found.map (join .all)
termination_by 10 * input.length + 6

/-- Negations joined by `and`. -/
def conjuncts (stop : Nat) (input : List Lexeme) :
    Counting (Parsed (List Expression) input.length) :=
  row isConjunction (negation stop input) fun rest _shorter => conjuncts stop rest
termination_by 10 * input.length + 5

/-- A negation, or a chain of comparisons. -/
def negation (stop : Nat) (input : List Lexeme) : Counting (Parsed Expression input.length) :=
  match input with
  | [] => chain stop []
  | l :: rest =>
    if isNegation l.token then do
      let operand ← nested l.offset (negation stop rest)
      return (operand.map .not).widen (Nat.le_succ _)
    else chain stop (l :: rest)
termination_by 10 * input.length + 4

/-- A chain of comparisons. -/
def chain (stop : Nat) (input : List Lexeme) : Counting (Parsed Expression input.length) := do
  let first ← signed stop input
  have _shorter := first.shorter
  let more ← links stop first.value first.rest
  let value := if more.value.isEmpty then first.value else join .all more.value
  return ⟨value, more.rest, Nat.lt_of_lt_of_le more.shorter first.shorter⟩
termination_by 10 * input.length + 3

/-- The links of a chain after its first operand. -/
def links (stop : Nat) (left : Expression) (input : List Lexeme) :
    Counting (Parsed (List Expression) (input.length + 1)) :=
  match Link.next? input with
  | none => return ⟨[], input, Nat.lt_succ_self _⟩
  | some link => do
    have _shorter := link.shorter
    let right ← signed stop link.rest
    have _shorter' := right.shorter
    let more ← links stop right.value right.rest
    return ⟨link.value.build left right.value :: more.value, more.rest,
      Nat.lt_of_lt_of_le more.shorter
        (Nat.succ_le_succ (Nat.le_of_lt (Nat.lt_trans right.shorter link.shorter)))⟩
termination_by 10 * input.length + 9

/-- A primary, or a minus sign before a signed primary. -/
def signed (stop : Nat) (input : List Lexeme) : Counting (Parsed Expression input.length) :=
  match input with
  | ⟨offset, .minus⟩ :: rest => do
    let operand ← nested offset (signed stop rest)
    return (operand.map negate).widen (Nat.le_succ _)
  | input => primary stop input
termination_by 10 * input.length + 2

/-- A literal, or something in brackets. -/
def primary (stop : Nat) (input : List Lexeme) : Counting (Parsed Expression input.length) :=
  match input with
  | [] => throw ⟨stop, .unexpectedEnd⟩
  | ⟨offset, token⟩ :: rest =>
    match token with
    | .number x => return ⟨.literal (.number x), rest, Nat.lt_succ_self _⟩
    | .text s => return ⟨.literal (.text s), rest, Nat.lt_succ_self _⟩
    | .word w =>
      match literalWord? w with
      | some v => return ⟨.literal v, rest, Nat.lt_succ_self _⟩
      | none => throw ⟨offset, .unknownName w⟩
    | .openParen => do
      let found ← nested offset (sequence stop .closeParen false rest)
      return found.map Sequence.grouped
    | .openBracket => do
      let found ← nested offset (sequence stop .closeBracket false rest)
      return found.map fun s => .list s.items
    | .openBrace => do
      let found ← nested offset (sequence stop .closeBrace false rest)
      return found.map fun s => .list s.items
    | token => throw ⟨offset, .unexpectedToken token⟩
termination_by 10 * input.length + 1

/-- The items up to the bracket `close`, which is consumed. -/
def sequence (stop : Nat) (close : Token) (afterComma : Bool) (input : List Lexeme) :
    Counting (Parsed Sequence (input.length + 1)) :=
  match input with
  | [] => do
    let first ← disjunction stop []
    return absurd first.shorter (Nat.not_lt_zero _)
  | l :: rest =>
    if l.token = close then
      return ⟨⟨[], afterComma⟩, rest, Nat.lt_succ_of_lt (Nat.lt_succ_self _)⟩
    else do
      let first ← disjunction stop (l :: rest)
      match h : first.rest with
      | [] => throw ⟨stop, .expected close none⟩
      | l' :: tail =>
        have shorter : tail.length < (l :: rest).length := length_lt_of_rest first h
        if l'.token = .comma then
          let more ← sequence stop close true tail
          return (more.map fun s => ⟨first.value :: s.items, s.trailingComma⟩).widen
            (Nat.succ_le_succ (Nat.le_of_lt shorter))
        else if l'.token = close then
          return ⟨⟨[first.value], false⟩, tail, Nat.lt_succ_of_lt shorter⟩
        else throw ⟨l'.offset, .expected close (some l'.token)⟩
termination_by 10 * input.length + 9
decreasing_by all_goals (try simp only [List.length_cons] at *); omega

end

/-- The expression that a list of lexemes spells; `stop` is the length of their text. -/
def ofLexemes (stop : Nat) (input : List Lexeme) : Counting Expression :=
  match input with
  | [] => throw ⟨0, .emptyExpression⟩
  | input => do
    let found ← disjunction stop input
    match found.rest with
    | [] => return found.value
    | l :: _ => throw ⟨l.offset, .trailingInput⟩

/-- **The expression that the text of a guard denotes**, read with a count. -/
def read (source : String) : Counting Expression :=
  match lexemes source with
  | .error e => throw e
  | .ok input => ofLexemes source.utf8ByteSize input

end Counting

/-! ## Counting changes nothing -/

/-- The count was within the limit, and is what it was before. -/
def Visit.Bounded (v : Visit) : Prop :=
  v.inside ≤ maxNesting ∧ v.after = v.before

/-- **A reader that counts agrees with a result** at a depth: it has the same one, the count is what it
was before, and so it was whenever something nested ended. -/
def Agrees {α : Type} (depth : Nat) (m : Counting α) (r : Except SyntaxError α) : Prop :=
  ∀ visits, ∃ more : List Visit, m.run ⟨depth, visits⟩ = (r, ⟨depth, visits ++ more⟩) ∧
    ∀ v ∈ more, v.Bounded

namespace Agrees
variable {α β : Type} {depth : Nat} {m : Counting α} {r : Except SyntaxError α}

theorem pure (a : α) : Agrees depth (Pure.pure a) (.ok a) :=
  fun visits => ⟨[], by rw [List.append_nil]; rfl, nofun⟩

theorem throw (e : SyntaxError) : Agrees depth (MonadExcept.throw e : Counting α) (.error e) :=
  fun visits => ⟨[], by rw [List.append_nil]; rfl, nofun⟩

/-- What follows a reader is read at the same depth, and not at all after an error. -/
theorem bind (h : Agrees depth m r) {f : α → Counting β} {out : Except SyntaxError β}
    (herror : ∀ e, r = .error e → out = .error e)
    (hok : ∀ a, r = .ok a → Agrees depth (f a) out) : Agrees depth (m >>= f) out := by
  intro visits
  obtain ⟨first, hrun, hfirst⟩ := h visits
  cases r with
  | error e =>
    refine ⟨first, ?_, hfirst⟩
    rw [Counting.run_bind, hrun, herror e rfl]
  | ok a =>
    obtain ⟨second, hrun', hsecond⟩ := hok a rfl (visits ++ first)
    refine ⟨first ++ second, ?_, List.forall_mem_append.mpr ⟨hfirst, hsecond⟩⟩
    rw [Counting.run_bind, hrun, ← List.append_assoc]
    exact hrun'

theorem map (h : Agrees depth m r) (f : α → β) : Agrees depth (m >>= fun a => Pure.pure (f a))
    (r.map f) := by
  refine h.bind (fun e he => ?_) fun a ha => ?_
  · rw [he]
    rfl
  · rw [ha]
    exact .pure (f a)

/-- What is too deep is refused. -/
theorem refused (m : Counting α) (offset : Nat) (h : depth = maxNesting) :
    Agrees depth (Counting.nested offset m) (.error ⟨offset, .nestedTooDeep maxNesting⟩) := by
  intro visits
  refine ⟨[⟨depth, depth, depth⟩], ?_, List.forall_mem_singleton.mpr ⟨Nat.le_of_eq h, rfl⟩⟩
  show (if maxNesting ≤ depth then _ else _) = _
  rw [if_pos (Nat.le_of_eq h.symm)]

/-- **What is nested is read one level deeper**, and leaves the count as it was. -/
theorem nested (offset : Nat) (hdepth : depth < maxNesting) (h : Agrees (depth + 1) m r) :
    Agrees depth (Counting.nested offset m) r := by
  intro visits
  obtain ⟨more, hrun, hmore⟩ := h visits
  have hvisit : (Visit.mk depth (depth + 1) depth).Bounded := ⟨hdepth, rfl⟩
  refine ⟨more ++ [⟨depth, depth + 1, depth⟩], ?_,
    List.forall_mem_append.mpr ⟨hmore, List.forall_mem_singleton.mpr hvisit⟩⟩
  show (if maxNesting ≤ depth then _ else
    let (result, inner) := m.run (Count.mk (depth + 1) visits)
    let after := inner.depth - 1
    (result, Count.mk after (inner.visits ++ [Visit.mk depth (depth + 1) after]))) = _
  rw [if_neg (Nat.not_le.mpr hdepth), hrun, ← List.append_assoc]
  rfl

end Agrees

/-! ## Every reader agrees -/

section Readers
variable {stop : Nat}

theorem agrees_row {depth : Nat} {isLink : Token → Bool} {term : Reader Expression}
    {input : List Lexeme} {m : Counting (Parsed Expression input.length)}
    {again : (rest : List Lexeme) → rest.length < input.length →
      Counting (Parsed (List Expression) rest.length)}
    (hterm : Agrees depth m (term input))
    (hagain : ∀ rest shorter, Agrees depth (again rest shorter) (terms isLink term rest)) :
    Agrees depth (Counting.row isLink m again) (terms isLink term input) := by
  rw [terms, Counting.row]
  refine hterm.bind (fun e he => by rw [he]) fun first hfirst => ?_
  rw [hfirst]
  obtain ⟨value, mid, hmid⟩ := first
  cases mid with
  | nil => exact .pure _
  | cons l rest =>
    dsimp only
    split
    · refine (hagain rest _).bind (fun e he => by rw [he]) fun more hmore => ?_
      rw [hmore]
      exact .pure _
    · exact .pure _

/-- What is nested is read by the readers of the next depth, or is refused. -/
theorem agrees_deeper {α : Type} {offset depth n : Nat} {m : Counting α}
    {r : Levels → Except SyntaxError α} (h : depth + n = maxNesting)
    (hinner : ∀ k, n = k + 1 → Agrees (depth + 1) m (r (.over stop (deeper stop k)))) :
    Agrees depth (Counting.nested offset m)
      (match deeper stop n with
        | none => .error ⟨offset, .nestedTooDeep maxNesting⟩
        | some inner => r inner) := by
  cases n with
  | zero => exact .refused m offset h
  | succ k =>
    rw [deeper, levels_eq]
    exact .nested offset (by omega) (hinner k rfl)

-- Where the count is `depth`, the readers that are compared are those below which `n` more levels may
-- be; the sum of the two is the same for every call.
mutual

/-- **Every reader that counts agrees** with the reader of its depth. -/
theorem agrees_disjunction (input : List Lexeme) {depth n : Nat}
    (h : depth + n = maxNesting) :
    Agrees depth (Counting.disjunction stop input) (disjunction stop (deeper stop n) input) := by
  rw [Counting.disjunction]
  exact (agrees_disjuncts input h).map _
termination_by 10 * input.length + 8

theorem agrees_disjuncts (input : List Lexeme) {depth n : Nat}
    (h : depth + n = maxNesting) :
    Agrees depth (Counting.disjuncts stop input)
      (terms isDisjunction (conjunction stop (deeper stop n)) input) := by
  rw [Counting.disjuncts]
  exact agrees_row (agrees_conjunction input h) fun rest _shorter => agrees_disjuncts rest h
termination_by 10 * input.length + 7

theorem agrees_conjunction (input : List Lexeme) {depth n : Nat}
    (h : depth + n = maxNesting) :
    Agrees depth (Counting.conjunction stop input) (conjunction stop (deeper stop n) input) := by
  rw [Counting.conjunction]
  exact (agrees_conjuncts input h).map _
termination_by 10 * input.length + 6

theorem agrees_conjuncts (input : List Lexeme) {depth n : Nat}
    (h : depth + n = maxNesting) :
    Agrees depth (Counting.conjuncts stop input)
      (terms isConjunction (negation stop (deeper stop n)) input) := by
  rw [Counting.conjuncts]
  exact agrees_row (agrees_negation input h) fun rest _shorter => agrees_conjuncts rest h
termination_by 10 * input.length + 5

theorem agrees_negation (input : List Lexeme) {depth n : Nat}
    (h : depth + n = maxNesting) :
    Agrees depth (Counting.negation stop input) (negation stop (deeper stop n) input) := by
  rw [Counting.negation.eq_def]
  cases input with
  | nil => exact agrees_chain [] h
  | cons l rest =>
    show Agrees depth (if isNegation l.token = true then _ else _)
      (if isNegation l.token = true then _ else _)
    split
    · refine .map (agrees_deeper (r := fun inner => inner.negation rest) h fun k hk => ?_) _
      exact agrees_negation rest (by omega)
    · exact agrees_chain (l :: rest) h
termination_by 10 * input.length + 4

theorem agrees_chain (input : List Lexeme) {depth n : Nat}
    (h : depth + n = maxNesting) :
    Agrees depth (Counting.chain stop input) (chain (signed stop (deeper stop n)) input) := by
  rw [Counting.chain, chain]
  refine (agrees_signed input h).bind (fun e he => by rw [he]) fun first hfirst => ?_
  have _shorter := first.shorter
  rw [hfirst]
  refine (agrees_links first.value first.rest h).bind (fun e he => by simp only [he])
    fun more hmore => ?_
  simp only [hmore]
  exact .pure _
termination_by 10 * input.length + 3

theorem agrees_links (left : Expression) (input : List Lexeme) {depth n : Nat}
    (h : depth + n = maxNesting) :
    Agrees depth (Counting.links stop left input)
      (links (signed stop (deeper stop n)) left input) := by
  rw [Counting.links, links]
  cases Link.next? input with
  | none => exact .pure _
  | some link =>
    have _shorter := link.shorter
    dsimp only
    refine (agrees_signed link.rest h).bind (fun e he => by rw [he]) fun right hright => ?_
    have _shorter' := right.shorter
    rw [hright]
    refine (agrees_links right.value right.rest h).bind (fun e he => by simp only [he])
      fun more hmore => ?_
    simp only [hmore]
    exact .pure _
termination_by 10 * input.length + 9

theorem agrees_signed (input : List Lexeme) {depth n : Nat}
    (h : depth + n = maxNesting) :
    Agrees depth (Counting.signed stop input) (signed stop (deeper stop n) input) := by
  rw [Counting.signed.eq_def]
  cases input with
  | nil => exact agrees_primary [] h
  | cons l rest =>
    obtain ⟨offset, token⟩ := l
    cases token with
    | minus =>
      refine .map (agrees_deeper (r := fun inner => inner.signed rest) h fun k hk => ?_) _
      exact agrees_signed rest (by omega)
    | _ => exact agrees_primary (_ :: rest) h
termination_by 10 * input.length + 2

theorem agrees_primary (input : List Lexeme) {depth n : Nat}
    (h : depth + n = maxNesting) :
    Agrees depth (Counting.primary stop input) (primary stop (deeper stop n) input) := by
  rw [Counting.primary.eq_def]
  cases input with
  | nil => exact .throw _
  | cons l rest =>
    obtain ⟨offset, token⟩ := l
    have hbracketed : ∀ close, Agrees depth
        (Counting.nested offset (Counting.sequence stop close false rest))
        (bracketed stop (deeper stop n) offset close rest) := fun close =>
      agrees_deeper (r := fun inner => sequence stop inner.alternatives close false rest) h
        fun k hk => agrees_sequence close false rest (by omega)
    cases token with
    | number x => exact .pure _
    | text s => exact .pure _
    | word w =>
      show Agrees depth (match literalWord? w with | some _ => _ | none => _)
        (match literalWord? w with | some _ => _ | none => _)
      cases literalWord? w with
      | some v => exact .pure _
      | none => exact .throw _
    | openParen => exact (hbracketed .closeParen).map _
    | openBracket => exact (hbracketed .closeBracket).map _
    | openBrace => exact (hbracketed .closeBrace).map _
    | _ => exact .throw _
termination_by 10 * input.length + 1

theorem agrees_sequence (close : Token) (afterComma : Bool) (input : List Lexeme)
    {depth n : Nat}
    (h : depth + n = maxNesting) :
    Agrees depth (Counting.sequence stop close afterComma input)
      (sequence stop (disjunction stop (deeper stop n)) close afterComma input) := by
  rw [Counting.sequence.eq_def, sequence.eq_def]
  cases input with
  | nil => exact (agrees_disjunction [] h).map _
  | cons l rest =>
    dsimp only
    split
    · exact .pure _
    refine (agrees_disjunction (l :: rest) h).bind (fun e he => by rw [he]) fun first hfirst => ?_
    rw [hfirst]
    obtain ⟨value, mid, hmid⟩ := first
    cases mid with
    | nil => exact .throw _
    | cons l' tail =>
      have _shorter : tail.length < (l :: rest).length := Nat.lt_of_succ_lt hmid
      dsimp only
      split
      · refine (agrees_sequence close true tail h).bind (fun e he => by rw [he])
          fun more hmore => ?_
        rw [hmore]
        exact .pure _
      · split
        · exact .pure _
        · exact .throw _
termination_by 10 * input.length + 9
decreasing_by all_goals (try simp only [List.length_cons] at *); omega

end

/-- The first call is counted from nothing. -/
theorem agrees_ofLexemes (input : List Lexeme) :
    Agrees 0 (Counting.ofLexemes stop input) (ofLexemes stop input) := by
  cases input with
  | nil => exact .throw _
  | cons l tail =>
    have hread : Agrees 0 (Counting.disjunction stop (l :: tail))
        (disjunction stop (deeper stop maxNesting) (l :: tail)) :=
      agrees_disjunction (l :: tail) (Nat.zero_add maxNesting)
    unfold Counting.ofLexemes ofLexemes
    dsimp only
    rw [alternatives_levels]
    refine hread.bind (fun e he => by rw [he]) fun found hfound => ?_
    rw [hfound]
    obtain ⟨value, rest, _⟩ := found
    cases rest with
    | nil => exact .pure _
    | cons l' more => exact .throw _

end Readers

/-- **Counting changes nothing** about what is read. -/
theorem agrees_read (source : String) : Agrees 0 (Counting.read source) (read source) := by
  unfold Counting.read read
  cases lexemes source with
  | error e => exact .throw e
  | ok input => exact agrees_ofLexemes input

/-- **Reading and evaluating a guard is bounded**, whatever the guard is.  The count of nested
negations, minus signs and brackets never exceeds 64 and is restored whenever one of them ends, with
or without an error.  An expression that is read has at most 325 levels, and its evaluation as many
calls that are open at once. -/
theorem guard_recursion_bounded (source : String) :
    (∃ visits : List Visit,
      (Counting.read source).run ⟨0, []⟩ = (read source, ⟨0, visits⟩) ∧
        ∀ v ∈ visits, v.inside ≤ 64 ∧ v.after = v.before) ∧
      ∀ e, read source = .ok e →
        e.height ≤ 325 ∧ e.evaluateWithin 325 = Expression.within e.evaluate := by
  constructor
  · obtain ⟨visits, hrun, hvisits⟩ := agrees_read source []
    exact ⟨visits, hrun, hvisits⟩
  · intro e he
    have hheight : e.height ≤ 325 := height_le_of_read he
    exact ⟨hheight, e.evaluateWithin_eq hheight⟩

/-- A guard with a bracket, a negation and a chain. -/
theorem guard_recursion_bounded_of_negatedChain :
    ∃ e, read "not (1 < -2 <= 3)" = .ok e ∧ e.height ≤ 325 ∧
      e.evaluateWithin 325 = Expression.within e.evaluate := by
  have hsome : (read "not (1 < -2 <= 3)").toOption.isSome = true := by decide +kernel
  cases he : read "not (1 < -2 <= 3)" with
  | error fault =>
    rw [he] at hsome
    cases hsome
  | ok e => exact ⟨e, rfl, (guard_recursion_bounded "not (1 < -2 <= 3)").2 e he⟩

end Runbook.Guard
