import Runbook.Proofs.Guard.Cut

/-!
# What chains and connectives evaluate to

Operands with operators between them are read as the conjunction of their links, and chains with
connectives between them as a conjunction or a disjunction of the chains.  The value of a conjunction
is the first result of its terms that is an error or does not hold, else the last one
(`evaluate_joined_all`); that of a disjunction is the first that is an error or holds, else the last
one (`evaluate_joined_any`).  A chain of one link is that link, which is a truth value or an error,
so a chain of any length means that all its links hold (`chains_evaluate`).
-/

namespace Runbook.Guard

open Grammar

/-! ## The result that decides -/

/-- What an expression evaluates to. -/
abbrev Outcome := Except TypeError Value

/-- The outcome is an error or does not hold, which ends a conjunction. -/
def refutes : Outcome → Bool
  | .ok v => !v.truthy
  | .error _ => true

/-- The outcome is an error or holds, which ends a disjunction. -/
def confirms : Outcome → Bool
  | .ok v => v.truthy
  | .error _ => true

/-- The outcomes of expressions, in their order. -/
def outcomes (terms : List Expression) : List Outcome :=
  terms.map Expression.evaluate

/-- **The first outcome that decides, else the last one.** -/
def decided? (decides : Outcome → Bool) (results : List Outcome) : Option Outcome :=
  (results.find? decides).or results.getLast?

theorem decided?_singleton (decides : Outcome → Bool) (result : Outcome) :
    decided? decides [result] = some result := by
  unfold decided?
  by_cases h : decides result = true
  · rw [List.find?_cons_of_pos h]
    rfl
  · rw [List.find?_cons_of_neg h]
    rfl

theorem decided?_cons_of_decides {decides : Outcome → Bool} {result : Outcome}
    (h : decides result = true) (rest : List Outcome) :
    decided? decides (result :: rest) = some result := by
  rw [decided?, List.find?_cons_of_pos h]
  rfl

theorem decided?_cons_cons {decides : Outcome → Bool} {result : Outcome}
    (h : decides result = false) (next : Outcome) (rest : List Outcome) :
    decided? decides (result :: next :: rest) = decided? decides (next :: rest) := by
  rw [decided?, List.find?_cons_of_neg (by simp [h]), List.getLast?_cons_cons, decided?]

theorem decided?_append {decides : Outcome → Bool} {before : List Outcome}
    (hbefore : ∀ o ∈ before, decides o = false) (result : Outcome) (after : List Outcome) :
    decided? decides (before ++ result :: after) = decided? decides (result :: after) := by
  induction before with
  | nil => rfl
  | cons first rest ih =>
    obtain ⟨hfirst, hrest⟩ := List.forall_mem_cons.mp hbefore
    rw [← ih hrest]
    cases rest with
    | nil => exact decided?_cons_cons hfirst result after
    | cons second more => exact decided?_cons_cons hfirst second (more ++ result :: after)

theorem decided?_of_forall {decides : Outcome → Bool} {results : List Outcome}
    (h : ∀ o ∈ results, decides o = false) : decided? decides results = results.getLast? := by
  have hnone : results.find? decides = none := List.find?_eq_none.mpr fun o ho => by simp [h o ho]
  rw [decided?, hnone]
  rfl

/-- **An evaluation that goes from term to term until one decides** ends with the first outcome that
decides, else with the last one. -/
theorem decided?_eq {decides : Outcome → Bool} {run : Value → List Expression → Outcome}
    (hfault : ∀ fault, decides (.error fault) = true) (hnil : ∀ last, run last [] = .ok last)
    (hcons : ∀ last term rest, run last (term :: rest) = term.evaluate.bind fun v =>
      if decides (.ok v) = true then .ok v else run v rest)
    (last : Value) (term : Expression) (rest : List Expression) :
    decided? decides (outcomes (term :: rest)) = some (run last (term :: rest)) := by
  -- The value carried along is the last result, which counts only where no term is left.
  induction rest generalizing last term with
  | nil =>
    show decided? decides [term.evaluate] = _
    rw [decided?_singleton, hcons]
    cases term.evaluate with
    | error fault => rfl
    | ok v =>
      show some (Except.ok v) = some (if decides (.ok v) = true then .ok v else run v [])
      rw [hnil, ite_self]
  | cons next more ih =>
    show decided? decides (term.evaluate :: outcomes (next :: more)) = _
    rw [hcons]
    cases hterm : term.evaluate with
    | error fault => exact decided?_cons_of_decides (hfault fault) _
    | ok v =>
      show _ = some (if decides (.ok v) = true then .ok v else run v (next :: more))
      by_cases hv : decides (.ok v) = true
      · rw [if_pos hv]
        exact decided?_cons_of_decides hv _
      · rw [if_neg hv, ← ih v next]
        exact decided?_cons_cons (Bool.eq_false_iff.mpr hv) next.evaluate (outcomes more)

theorem evaluateAll_eq (last : Value) (term : Expression) (rest : List Expression) :
    decided? refutes (outcomes (term :: rest)) =
      some (Expression.evaluateAll last (term :: rest)) := by
  refine decided?_eq (fun _ => rfl) (fun last => rfl) ?_ last term rest
  intro last term rest
  rw [Expression.evaluateAll]
  cases term.evaluate with
  | error fault => rfl
  | ok v =>
    show (if v.truthy = true then _ else Except.ok v) = if (!v.truthy) = true then Except.ok v else _
    cases v.truthy <;> rfl

theorem evaluateAny_eq (last : Value) (term : Expression) (rest : List Expression) :
    decided? confirms (outcomes (term :: rest)) =
      some (Expression.evaluateAny last (term :: rest)) := by
  refine decided?_eq (fun _ => rfl) (fun last => rfl) ?_ last term rest
  intro last term rest
  rw [Expression.evaluateAny]
  cases term.evaluate with
  | error fault => rfl
  | ok v => rfl

/-- **A conjunction** evaluates to the first outcome that is an error or does not hold, else to the
last one. -/
theorem evaluate_joined_all {terms : List Expression} (h : terms ≠ []) :
    decided? refutes (outcomes terms) = some (joined .all terms).evaluate := by
  match terms, h with
  | [only], _ => exact decided?_singleton refutes only.evaluate
  | term :: next :: rest, _ => exact evaluateAll_eq (.boolean true) term (next :: rest)

/-- **A disjunction** evaluates to the first outcome that is an error or holds, else to the last
one. -/
theorem evaluate_joined_any {terms : List Expression} (h : terms ≠ []) :
    decided? confirms (outcomes terms) = some (joined .any terms).evaluate := by
  match terms, h with
  | [only], _ => exact decided?_singleton confirms only.evaluate
  | term :: next :: rest, _ => exact evaluateAny_eq (.boolean false) term (next :: rest)

/-! ## Rows of operands and rows of chains -/

/-- What stands between operators, and what stands between connectives. -/
inductive Level
  | operand
  | chain

/-- The reader of a level where nothing encloses what it reads, in a text of `stop` bytes. -/
def Level.reader (stop : Nat) : Level → Reader Expression
  | operand => (levels stop maxNesting).signed
  | chain => Guard.chain (levels stop maxNesting).signed

/-- **A phrase**: lexemes that the reader of a level reads, all of them, and the expression that they
spell. -/
structure Phrase (level : Level) (stop : Nat) where
  /-- The lexemes. -/
  lexemes : List Lexeme
  /-- What they spell. -/
  expression : Expression
  /-- The reader reads them to their end. -/
  reads : found (level.reader stop lexemes) = some (expression, [])

/-- **An operand after an operator.** -/
structure Linked (stop : Nat) where
  /-- The operator. -/
  operator : Operator
  /-- The lexemes of the operator. -/
  sign : List Lexeme
  /-- They spell the operator. -/
  spells : sign.map Lexeme.token = operator.tokens
  /-- The operand. -/
  operand : Phrase .operand stop

/-- **A chain after a connective** that `isLink` accepts. -/
structure Joined (isLink : Token → Bool) (stop : Nat) where
  /-- The connective. -/
  connective : Lexeme
  /-- It joins terms. -/
  joins : isLink connective.token = true
  /-- The chain. -/
  term : Phrase .chain stop

variable {stop : Nat} {isLink : Token → Bool}

/-- The lexemes of an operator and an operand. -/
def Linked.lexemes (k : Linked stop) : List Lexeme :=
  k.sign ++ k.operand.lexemes

/-- The lexemes of a connective and a chain. -/
def Joined.lexemes (j : Joined isLink stop) : List Lexeme :=
  j.connective :: j.term.lexemes

/-- **The links of a chain**, each between its two operands. -/
def linksFrom (left : Expression) : List (Linked stop) → List Expression
  | [] => []
  | k :: rest => k.operator.denoted left k.operand.expression :: linksFrom k.operand.expression rest

/-- The chains of a row. -/
def chainsOf (first : Phrase .chain stop) (rest : List (Joined isLink stop)) : List Expression :=
  first.expression :: rest.map fun j => j.term.expression

/-! ### Their derivations -/

theorem signed_levels (stop : Nat) :
    (levels stop maxNesting).signed = signed stop (deeper stop maxNesting) :=
  congrArg Levels.signed (levels_eq stop maxNesting)

theorem exists_signed (u : Phrase .operand stop) (hw : Written u.lexemes) :
    ∃ s : Signed, s.tokens = u.lexemes.map Lexeme.token ∧ s.nesting ≤ maxNesting ∧
      s.denoted = u.expression := by
  have hreads : found ((levels stop maxNesting).signed u.lexemes) = some (u.expression, []) := u.reads
  rw [signed_levels] at hreads
  obtain ⟨s, hn, hs, he⟩ := (sound stop maxNesting).signed hw hreads
  exact ⟨s, spelled_all.mp hs, hn, he⟩

theorem exists_chain (c : Phrase .chain stop) (hw : Written c.lexemes) :
    ∃ d : Chain, d.tokens = c.lexemes.map Lexeme.token ∧ d.nesting ≤ maxNesting ∧
      d.denoted = c.expression := by
  have hreads : found (chain (levels stop maxNesting).signed c.lexemes) = some (c.expression, []) :=
    c.reads
  rw [signed_levels] at hreads
  obtain ⟨d, hn, hd, he⟩ := sound_chain (fun m _ => sound stop m) hw hreads
  exact ⟨d, spelled_all.mp hd, hn, he⟩

/-- A derivation of an operand makes its tokens a phrase. -/
def Phrase.ofSigned (s : Signed) (ls : List Lexeme) (hs : s.tokens = ls.map Lexeme.token)
    (hn : s.nesting ≤ maxNesting) : Phrase .operand stop where
  lexemes := ls
  expression := s.denoted
  reads := by
    show found ((levels stop maxNesting).signed ls) = _
    rw [signed_levels]
    exact found_of_signed s hn (spelled_all.mpr hs)

/-- A derivation of a chain makes its tokens a phrase. -/
def Phrase.ofChain (c : Chain) (ls : List Lexeme) (hc : c.tokens = ls.map Lexeme.token)
    (hn : c.nesting ≤ maxNesting) : Phrase .chain stop where
  lexemes := ls
  expression := c.denoted
  reads := by
    show found (chain (levels stop maxNesting).signed ls) = _
    rw [signed_levels]
    exact found_of_chain c hn (spelled_all.mpr hc) trivial

theorem Written.of_append {front back : List Lexeme} (h : Written (front ++ back)) :
    Written front ∧ Written back :=
  List.forall_mem_append.mp h

theorem exists_links (links : List (Linked stop)) (hw : Written (links.flatMap Linked.lexemes)) :
    ∃ d : Links, d.tokens = (links.flatMap Linked.lexemes).map Lexeme.token ∧
      d.nesting ≤ maxNesting ∧ ∀ left, d.terms left = linksFrom left links := by
  induction links with
  | nil => exact ⟨.none, rfl, Nat.zero_le _, fun _ => rfl⟩
  | cons k rest ih =>
    rw [List.flatMap_cons] at hw ⊢
    obtain ⟨hk, hrest⟩ := hw.of_append
    obtain ⟨s, hs, hsn, hse⟩ := exists_signed k.operand (Written.of_append hk).2
    obtain ⟨d, hd, hdn, hde⟩ := ih hrest
    -- The operand of this link is the left one of the next.
    refine ⟨.more k.operator s d, ?_, Nat.max_le.mpr ⟨hsn, hdn⟩, fun left => ?_⟩
    · rw [Links.tokens, hs, hd, ← k.spells, Linked.lexemes, List.map_append, List.map_append]
    · rw [Links.terms, hse, hde, linksFrom]

/-- **A row of derived chains**, by its tokens, how deep they are nested, and what they denote. -/
inductive Row (isLink : Token → Bool) : List Token → Nat → List Expression → Prop
  /-- A chain alone. -/
  | one (c : Chain) : Row isLink c.tokens c.nesting [c.denoted]
  /-- A chain, a connective and a row. -/
  | more (c : Chain) {link : Token} (hlink : isLink link = true) {tokens : List Token} {n : Nat}
      {es : List Expression} (rest : Row isLink tokens n es) :
      Row isLink (c.tokens ++ link :: tokens) (max c.nesting n) (c.denoted :: es)

theorem exists_row (first : Phrase .chain stop) (rest : List (Joined isLink stop))
    (hw : Written (first.lexemes ++ rest.flatMap Joined.lexemes)) :
    ∃ n ≤ maxNesting, Row isLink ((first.lexemes ++ rest.flatMap Joined.lexemes).map Lexeme.token) n
      (chainsOf first rest) := by
  induction rest generalizing first with
  | nil =>
    obtain ⟨c, hc, hcn, hce⟩ := exists_chain first hw.of_append.1
    have hrow : Row isLink c.tokens c.nesting [c.denoted] := .one c
    rw [hc, hce] at hrow
    exact ⟨c.nesting, hcn, by simpa using! hrow⟩
  | cons j rest ih =>
    obtain ⟨hfirst, hrest⟩ := hw.of_append
    obtain ⟨c, hc, hcn, hce⟩ := exists_chain first hfirst
    obtain ⟨n, hn, hmore⟩ := ih j.term (List.forall_mem_cons.mp hrest).2
    have hrow := Row.more c j.joins hmore
    rw [hc, hce] at hrow
    refine ⟨max c.nesting n, Nat.max_le.mpr ⟨hcn, hn⟩, ?_⟩
    simpa [Joined.lexemes] using! hrow

theorem Row.exists_conjunction {tokens : List Token} {n : Nat} {es : List Expression}
    (h : Row isConjunction tokens n es) :
    ∃ d : Conjunction, d.tokens = tokens ∧ d.nesting = n ∧ d.terms = es := by
  induction h with
  | one c => exact ⟨.one (.chain c), rfl, rfl, rfl⟩
  | more c hlink rest ih =>
    obtain ⟨d, rfl, rfl, rfl⟩ := ih
    obtain ⟨spelling, rfl⟩ := isConjunction_iff.mp hlink
    exact ⟨.more (.chain c) spelling d, rfl, rfl, rfl⟩

theorem Row.exists_disjunction {tokens : List Token} {n : Nat} {es : List Expression}
    (h : Row isDisjunction tokens n es) :
    ∃ d : Disjunction, d.tokens = tokens ∧ d.nesting = n ∧ d.terms = es := by
  induction h with
  | one c => exact ⟨.one (.one (.chain c)), rfl, rfl, rfl⟩
  | more c hlink rest ih =>
    obtain ⟨d, rfl, rfl, rfl⟩ := ih
    obtain ⟨spelling, rfl⟩ := isDisjunction_iff.mp hlink
    exact ⟨.more (.one (.chain c)) spelling d, rfl, rfl, rfl⟩

/-! ## Their values -/

/-- A chain with links is read, and its value is decided among its links. -/
theorem exists_chain_value {source : String} (first : Phrase .operand source.utf8ByteSize)
    {links : List (Linked source.utf8ByteSize)} (hne : links ≠ [])
    (hls : lexemes source = .ok (first.lexemes ++ links.flatMap Linked.lexemes)) :
    ∃ e, read source = .ok e ∧
      decided? refutes (outcomes (linksFrom first.expression links)) = some e.evaluate := by
  obtain ⟨hfirst, hlinks⟩ := (written_of_lexemesFrom 0 _ hls).of_append
  obtain ⟨s, hs, hsn, hse⟩ := exists_signed first hfirst
  obtain ⟨k, hk, hkn, hke⟩ := exists_links links hlinks
  have htokens : (Disjunction.one (.one (.chain (.mk s k)))).tokens =
      (first.lexemes ++ links.flatMap Linked.lexemes).map Lexeme.token := by
    rw [List.map_append, ← hs, ← hk]
    rfl
  refine ⟨_, read_of_lexemes hls htokens (Nat.max_le.mpr ⟨hsn, hkn⟩), ?_⟩
  show _ = some (chained s.denoted (k.terms s.denoted)).evaluate
  rw [hse, hke]
  cases links with
  | nil => exact absurd rfl hne
  | cons link rest => exact evaluate_joined_all (List.cons_ne_nil _ _)

theorem exists_conjunction_value {source : String} (first : Phrase .chain source.utf8ByteSize)
    (rest : List (Joined isConjunction source.utf8ByteSize))
    (hls : lexemes source = .ok (first.lexemes ++ rest.flatMap Joined.lexemes)) :
    ∃ e, read source = .ok e ∧
      decided? refutes (outcomes (chainsOf first rest)) = some e.evaluate := by
  obtain ⟨n, hn, hrow⟩ := exists_row first rest (written_of_lexemesFrom 0 _ hls)
  obtain ⟨d, hd, rfl, he⟩ := hrow.exists_conjunction
  have htokens : (Disjunction.one d).tokens =
      (first.lexemes ++ rest.flatMap Joined.lexemes).map Lexeme.token := hd
  refine ⟨_, read_of_lexemes hls htokens hn, ?_⟩
  show _ = some (joined .all d.terms).evaluate
  rw [he]
  exact evaluate_joined_all (List.cons_ne_nil _ _)

theorem exists_disjunction_value {source : String} (first : Phrase .chain source.utf8ByteSize)
    (rest : List (Joined isDisjunction source.utf8ByteSize))
    (hls : lexemes source = .ok (first.lexemes ++ rest.flatMap Joined.lexemes)) :
    ∃ e, read source = .ok e ∧
      decided? confirms (outcomes (chainsOf first rest)) = some e.evaluate := by
  obtain ⟨n, hn, hrow⟩ := exists_row first rest (written_of_lexemesFrom 0 _ hls)
  obtain ⟨d, hd, rfl, he⟩ := hrow.exists_disjunction
  refine ⟨_, read_of_lexemes hls hd hn, ?_⟩
  show _ = some (joined .any d.terms).evaluate
  rw [he]
  exact evaluate_joined_any (List.cons_ne_nil _ _)

/-- **A chain of comparisons means that all its links hold**: it is read, and its value is true if
all links are, false if a link is false after links that are true, and the error of a link after
links that are true.  Chains joined by `and` are read and evaluate to the first outcome that is an
error or does not hold, else the last one; chains joined by `or`, to the first that is an error or
holds, else the last one. -/
theorem chains_evaluate (source : String) :
    (∀ (first : Phrase .operand source.utf8ByteSize) (links : List (Linked source.utf8ByteSize)),
      links ≠ [] → lexemes source = .ok (first.lexemes ++ links.flatMap Linked.lexemes) →
      ∃ e, read source = .ok e ∧
        ((∀ o ∈ outcomes (linksFrom first.expression links), o = .ok (.boolean true)) →
          e.evaluate = .ok (.boolean true)) ∧
        ∀ before o after, outcomes (linksFrom first.expression links) = before ++ o :: after →
          (∀ p ∈ before, p = .ok (.boolean true)) →
          (o = .ok (.boolean false) → e.evaluate = .ok (.boolean false)) ∧
            ∀ fault, o = .error fault → e.evaluate = .error fault) ∧
      (∀ (first : Phrase .chain source.utf8ByteSize)
        (rest : List (Joined isConjunction source.utf8ByteSize)),
        lexemes source = .ok (first.lexemes ++ rest.flatMap Joined.lexemes) →
        ∃ e, read source = .ok e ∧
          decided? refutes (outcomes (chainsOf first rest)) = some e.evaluate) ∧
      ∀ (first : Phrase .chain source.utf8ByteSize)
        (rest : List (Joined isDisjunction source.utf8ByteSize)),
        lexemes source = .ok (first.lexemes ++ rest.flatMap Joined.lexemes) →
        ∃ e, read source = .ok e ∧
          decided? confirms (outcomes (chainsOf first rest)) = some e.evaluate := by
  refine ⟨?_, exists_conjunction_value, exists_disjunction_value⟩
  intro first links hne hls
  obtain ⟨e, hread, hvalue⟩ := exists_chain_value first hne hls
  refine ⟨e, hread, ?_, ?_⟩
  · intro htrue
    rw [decided?_of_forall fun o ho => by rw [htrue o ho]; rfl] at hvalue
    exact htrue _ (List.mem_of_getLast? hvalue)
  · intro before o after hsplit hbefore
    rw [hsplit, decided?_append (fun p hp => by rw [hbefore p hp]; rfl)] at hvalue
    constructor
    · rintro rfl
      exact Option.some.inj (hvalue.symm.trans (decided?_cons_of_decides rfl after))
    · rintro fault rfl
      exact Option.some.inj (hvalue.symm.trans (decided?_cons_of_decides rfl after))

/-- A word that is a literal, as an operand. -/
def operandOf (offset : Nat) (word : String) (value : Value) (known : (word, value) ∈ constants) :
    Phrase .operand stop :=
  .ofSigned (.primary (.constant word value known)) [⟨offset, .word word⟩] rfl (Nat.zero_le _)

/-- A word that is a literal, as a chain. -/
def chainOf (offset : Nat) (word : String) (value : Value) (known : (word, value) ∈ constants) :
    Phrase .chain stop :=
  .ofChain (.mk (.primary (.constant word value known)) .none) [⟨offset, .word word⟩] rfl
    (Nat.zero_le _)

/-- A link that fails after one that is true, a conjunction that ends at its second term, and a
disjunction whose terms all do not hold. -/
theorem chains_evaluate_of_null :
    (∃ e, read "null == null < true" = .ok e ∧
      e.evaluate = .error (.notOrdered .nothing .boolean)) ∧
    (∃ e, read "true and null and false" = .ok e ∧ e.evaluate = .ok .nothing) ∧
    ∃ e, read "false or null" = .ok e ∧ e.evaluate = .ok .nothing := by
  refine ⟨?_, ?_, ?_⟩
  · have hls : lexemes "null == null < true" =
        .ok [⟨0, .word "null"⟩, ⟨5, .comparison .equal⟩, ⟨8, .word "null"⟩,
          ⟨13, .comparison .less⟩, ⟨15, .word "true"⟩] :=
      eq_ok_of_toOption (by decide +kernel)
    obtain ⟨e, hread, -, hlink⟩ := (chains_evaluate "null == null < true").1
      (operandOf 0 "null" .nothing (by simp [constants]))
      [⟨.equal, [⟨5, .comparison .equal⟩], rfl, operandOf 8 "null" .nothing (by simp [constants])⟩,
        ⟨.less, [⟨13, .comparison .less⟩], rfl,
          operandOf 15 "true" (.boolean true) (by simp [constants])⟩]
      (List.cons_ne_nil _ _) hls
    exact ⟨e, hread, (hlink [.ok (.boolean true)] _ [] rfl (by simp)).2 _ rfl⟩
  · have hls : lexemes "true and null and false" =
        .ok [⟨0, .word "true"⟩, ⟨5, .word "and"⟩, ⟨9, .word "null"⟩, ⟨14, .word "and"⟩,
          ⟨18, .word "false"⟩] :=
      eq_ok_of_toOption (by decide +kernel)
    obtain ⟨e, hread, hvalue⟩ := (chains_evaluate "true and null and false").2.1
      (chainOf 0 "true" (.boolean true) (by simp [constants]))
      [⟨⟨5, .word "and"⟩, rfl, chainOf 9 "null" .nothing (by simp [constants])⟩,
        ⟨⟨14, .word "and"⟩, rfl, chainOf 18 "false" (.boolean false) (by simp [constants])⟩] hls
    exact ⟨e, hread, (Option.some.inj hvalue).symm⟩
  · have hls : lexemes "false or null" =
        .ok [⟨0, .word "false"⟩, ⟨6, .word "or"⟩, ⟨9, .word "null"⟩] :=
      eq_ok_of_toOption (by decide +kernel)
    obtain ⟨e, hread, hvalue⟩ := (chains_evaluate "false or null").2.2
      (chainOf 0 "false" (.boolean false) (by simp [constants]))
      [⟨⟨6, .word "or"⟩, rfl, chainOf 9 "null" .nothing (by simp [constants])⟩] hls
    exact ⟨e, hread, (Option.some.inj hvalue).symm⟩

end Runbook.Guard
