import Runbook.Proofs.Guard.Derived

/-!
# Reading a guard is deriving it

What a reader finds has a derivation (`sound`): by induction on the depth that is left, and within
one depth by the induction principles of the rows that a reader goes through.  Together with the
converse, the guards that can be read are those whose tokens are derived with at most 64 levels of
nesting, and their expression is the one that is denoted (`read_eq_ok_iff`).
-/

namespace Runbook.Guard

open Grammar

/-! ## Tokens that are written -/

/-- The token is not a comparison that only words stand for. -/
def Token.Written (token : Token) : Prop :=
  token ≠ .comparison .memberOf ∧ token ≠ .comparison .notMemberOf

/-- All tokens of the input are written as such. -/
def Written (input : List Lexeme) : Prop :=
  ∀ l ∈ input, l.token.Written

theorem Spelled.written {tokens : List Token} {input rest : List Lexeme}
    (hs : Spelled tokens input rest) (hw : Written input) : Written rest := by
  obtain ⟨taken, rfl, _⟩ := hs
  exact fun l hl => hw l (List.mem_append_right taken hl)

theorem exists_operator_of_next? {input : List Lexeme} {link : Parsed Link input.length}
    (hw : Written input) (h : Link.next? input = some link) :
    ∃ operator : Operator, Spelled operator.tokens input link.rest ∧
      ∀ left right, link.value.build left right = operator.denoted left right := by
  unfold Link.next? at h
  split at h
  · rename_i offset op rest
    obtain ⟨h₁, h₂⟩ := hw _ List.mem_cons_self
    cases h
    cases op with
    | equal => exact ⟨.equal, ⟨[_], rfl, rfl⟩, fun _ _ => rfl⟩
    | notEqual => exact ⟨.notEqual, ⟨[_], rfl, rfl⟩, fun _ _ => rfl⟩
    | less => exact ⟨.less, ⟨[_], rfl, rfl⟩, fun _ _ => rfl⟩
    | atMost => exact ⟨.atMost, ⟨[_], rfl, rfl⟩, fun _ _ => rfl⟩
    | greater => exact ⟨.greater, ⟨[_], rfl, rfl⟩, fun _ _ => rfl⟩
    | atLeast => exact ⟨.atLeast, ⟨[_], rfl, rfl⟩, fun _ _ => rfl⟩
    | memberOf => exact absurd rfl h₁
    | notMemberOf => exact absurd rfl h₂
  · cases h
    exact ⟨.memberOf, ⟨[_], rfl, rfl⟩, fun _ _ => rfl⟩
  · cases h
    exact ⟨.subset, ⟨[_], rfl, rfl⟩, fun _ _ => rfl⟩
  · cases h
    exact ⟨.notMemberOf, ⟨[_, _], rfl, rfl⟩, fun _ _ => rfl⟩
  · cases h

/-! ## Induction over what is found -/

section Induction
variable {stop : Nat} {isLink : Token → Bool} {reader : Reader Expression}

theorem length_lt_of_found {α : Type} {bound : Nat} {outcome : Except SyntaxError (Parsed α bound)}
    {value : α} {rest : List Lexeme} (h : found outcome = some (value, rest)) :
    rest.length < bound := by
  cases outcome with
  | error e => cases h
  | ok p => cases h; exact p.shorter

/-- **Terms are one term, or a term, a token between terms and further terms.** -/
theorem terms_induction (P : List Lexeme → List Expression → List Lexeme → Prop)
    (one : ∀ input e rest, found (reader input) = some (e, rest) → P input [e] rest)
    (more : ∀ input e l tail es rest, found (reader input) = some (e, l :: tail) →
      isLink l.token = true → P tail es rest → P input (e :: es) rest)
    (input : List Lexeme) {es : List Expression} {rest : List Lexeme}
    (h : found (terms isLink reader input) = some (es, rest)) : P input es rest := by
  rw [found_terms] at h
  obtain ⟨⟨e, mid⟩, he, h⟩ := Option.bind_eq_some_iff.1 h
  have hlt := length_lt_of_found he
  cases mid with
  | nil => cases h; exact one _ _ _ he
  | cons l tail =>
    dsimp only at h
    split at h
    · obtain ⟨⟨es, rest⟩, hes, h⟩ := Option.map_eq_some_iff.1 h
      cases h
      exact more _ _ _ _ _ _ he ‹_› (terms_induction P one more tail hes)
    · cases h; exact one _ _ _ he
termination_by input.length
decreasing_by exact Nat.lt_of_succ_lt hlt

/-- **Links are none, or an operator, an operand and further links.** -/
theorem links_induction (P : Expression → List Lexeme → List Expression → List Lexeme → Prop)
    (none : ∀ left input, P left input [] input)
    (more : ∀ left input link e mid es rest, Link.next? input = some link →
      found (reader link.rest) = some (e, mid) → P e mid es rest →
      P left input (link.value.build left e :: es) rest)
    (left : Expression) (input : List Lexeme) {es : List Expression} {rest : List Lexeme}
    (h : found (links reader left input) = some (es, rest)) : P left input es rest := by
  rw [found_links] at h
  cases hlink : Link.next? input with
  | none =>
    rw [hlink] at h
    cases h
    exact none left input
  | some link =>
    rw [hlink] at h
    obtain ⟨⟨e, mid⟩, he, h⟩ := Option.bind_eq_some_iff.1 h
    obtain ⟨⟨es, rest⟩, hes, h⟩ := Option.map_eq_some_iff.1 h
    cases h
    have hlt := Nat.lt_trans (length_lt_of_found he) link.shorter
    exact more _ _ _ _ _ _ _ hlink he (links_induction P none more e mid hes)
termination_by input.length

/-- **A sequence is the closing bracket**, or an item and that bracket, or an item, a comma and a
sequence. -/
theorem sequence_induction (close : Token)
    (P : Bool → List Lexeme → Sequence → List Lexeme → Prop)
    (closing : ∀ afterComma offset rest,
      P afterComma (⟨offset, close⟩ :: rest) ⟨[], afterComma⟩ rest)
    (last : ∀ afterComma input e offset rest,
      found (reader input) = some (e, ⟨offset, close⟩ :: rest) →
      P afterComma input ⟨[e], false⟩ rest)
    (more : ∀ afterComma input e offset tail s rest,
      found (reader input) = some (e, ⟨offset, .comma⟩ :: tail) → P true tail s rest →
      P afterComma input ⟨e :: s.items, s.trailingComma⟩ rest)
    (afterComma : Bool) (input : List Lexeme) {s : Sequence} {rest : List Lexeme}
    (h : found (sequence stop reader close afterComma input) = some (s, rest)) :
    P afterComma input s rest := by
  rw [found_sequence] at h
  match hi : input, h with
  | [], h => cases h
  | ⟨offset, token⟩ :: mid, h =>
    dsimp only at h
    split at h
    · rename_i hl
      cases hl
      cases h
      exact closing ..
    · obtain ⟨⟨e, _ | ⟨⟨offset', token'⟩, tail⟩⟩, he, h⟩ := Option.bind_eq_some_iff.1 h
      · cases h
      · have hlt : tail.length < input.length := hi ▸ Nat.lt_of_succ_lt (length_lt_of_found he)
        dsimp only at h
        split at h
        · rename_i hcomma
          cases hcomma
          obtain ⟨⟨s, rest⟩, hs, h⟩ := Option.map_eq_some_iff.1 h
          cases h
          exact more _ _ _ _ _ _ _ he (sequence_induction close P closing last more true tail hs)
        · split at h
          · rename_i hclose
            cases hclose
            cases h
            exact last _ _ _ _ _ he
          · cases h
termination_by input.length

end Induction

/-! ## What is found is derived -/

/-- **The readers of a depth find only what is derived**, and no deeper nested than there is depth
left. -/
structure Sound (stop n : Nat) : Prop where
  disjunction : ∀ {input rest : List Lexeme} {e : Expression}, Written input →
    found (disjunction stop (deeper stop n) input) = some (e, rest) →
    ∃ d : Disjunction, d.nesting ≤ n ∧ Spelled d.tokens input rest ∧ d.denoted = e
  negation : ∀ {input rest : List Lexeme} {e : Expression}, Written input →
    found (negation stop (deeper stop n) input) = some (e, rest) →
    ∃ g : Negation, g.nesting ≤ n ∧ Spelled g.tokens input rest ∧ g.denoted = e
  signed : ∀ {input rest : List Lexeme} {e : Expression}, Written input →
    found (signed stop (deeper stop n) input) = some (e, rest) →
    ∃ s : Signed, s.nesting ≤ n ∧ Spelled s.tokens input rest ∧ s.denoted = e

section Sound
variable {stop n : Nat} {input rest : List Lexeme} {e : Expression}

theorem Spelled.cons {tokens : List Token} {tail : List Lexeme} (offset : Nat) (token : Token)
    (h : Spelled tokens tail rest) : Spelled (token :: tokens) (⟨offset, token⟩ :: tail) rest :=
  spelled_cons.2 ⟨offset, tail, rfl, h⟩

theorem Spelled.append {front back : List Token} {mid : List Lexeme}
    (hf : Spelled front input mid) (hb : Spelled back mid rest) :
    Spelled (front ++ back) input rest :=
  spelled_append.2 ⟨mid, hf, hb⟩

theorem Spelled.nil : Spelled [] rest rest :=
  spelled_nil.2 rfl

/-- What stands up to a closing bracket is nothing more, or items. -/
theorem Sound.sequence (ih : Sound stop n) (b : Brackets) {afterComma : Bool} {s : Sequence}
    (hw : Written input)
    (h : found (Guard.sequence stop (Guard.disjunction stop (deeper stop n)) b.closing afterComma
      input) = some (s, rest)) :
    (s = ⟨[], afterComma⟩ ∧ Spelled [b.closing] input rest) ∨
      ∃ i : Items, i.nesting ≤ n ∧ Spelled (i.tokens ++ [b.closing]) input rest ∧
        (⟨i.expressions, i.trailingComma⟩ : Sequence) = s := by
  refine sequence_induction b.closing (fun afterComma input s rest => Written input →
    (s = ⟨[], afterComma⟩ ∧ Spelled [b.closing] input rest) ∨
      ∃ i : Items, i.nesting ≤ n ∧ Spelled (i.tokens ++ [b.closing]) input rest ∧
        (⟨i.expressions, i.trailingComma⟩ : Sequence) = s) ?_ ?_ ?_ afterComma input h hw
  · intro afterComma offset rest _
    exact .inl ⟨rfl, .cons _ _ .nil⟩
  · intro afterComma input e offset rest he hw
    obtain ⟨d, hn, hd, rfl⟩ := ih.disjunction hw he
    exact .inr ⟨.last d false, hn, (hd.append .nil).append (.cons _ _ .nil), rfl⟩
  · intro afterComma input e offset tail s rest he hs hw
    obtain ⟨d, hn, hd, rfl⟩ := ih.disjunction hw he
    have hcomma : Spelled [.comma] (⟨offset, .comma⟩ :: tail) tail := .cons _ _ .nil
    -- nothing more after a comma: the comma is the trailing one
    obtain ⟨rfl, hclose⟩ | ⟨i, hi, hitems, rfl⟩ := hs (hcomma.written (hd.written hw))
    · exact .inr ⟨.last d true, hn, (hd.append hcomma).append hclose, rfl⟩
    · refine .inr ⟨.more d i, Nat.max_le.2 ⟨hn, hi⟩, ?_, rfl⟩
      simpa [Items.tokens] using hd.append (hcomma.append hitems)

theorem Sound.content (ih : Sound stop n) (b : Brackets) {s : Sequence} (hw : Written input)
    (h : found (Guard.sequence stop (Guard.disjunction stop (deeper stop n)) b.closing false
      input) = some (s, rest)) :
    ∃ c : Content, c.nesting ≤ n ∧ Spelled (c.tokens ++ [b.closing]) input rest ∧
      (⟨c.expressions, c.trailingComma⟩ : Sequence) = s := by
  obtain ⟨rfl, hclose⟩ | ⟨i, hi, hitems, rfl⟩ := ih.sequence b hw h
  · exact ⟨.empty, Nat.zero_le _, hclose, rfl⟩
  · exact ⟨.items i, hi, hitems, rfl⟩

theorem sound_bracketed (ih : ∀ m, n = m + 1 → Sound stop m) (b : Brackets) {offset : Nat}
    {tail : List Lexeme} (hw : Written (⟨offset, b.opening⟩ :: tail))
    (h : found (primary stop (deeper stop n) (⟨offset, b.opening⟩ :: tail)) = some (e, rest)) :
    ∃ p : Primary, p.nesting ≤ n ∧ Spelled p.tokens (⟨offset, b.opening⟩ :: tail) rest ∧
      p.denoted = e := by
  rw [found_primary_opening] at h
  cases n with
  | zero => cases h
  | succ m =>
    obtain ⟨⟨s, _⟩, hs, h⟩ := Option.map_eq_some_iff.1 h
    cases h
    have ho : Spelled [b.opening] (⟨offset, b.opening⟩ :: tail) tail := .cons _ _ .nil
    obtain ⟨c, hn, hc, rfl⟩ := (ih m rfl).content b (ho.written hw) hs
    exact ⟨.bracketed b c, Nat.succ_le_succ hn, ho.append hc, rfl⟩

theorem sound_primary (ih : ∀ m, n = m + 1 → Sound stop m) (hw : Written input)
    (h : found (primary stop (deeper stop n) input) = some (e, rest)) :
    ∃ p : Primary, p.nesting ≤ n ∧ Spelled p.tokens input rest ∧ p.denoted = e := by
  cases input with
  | nil => cases h
  | cons l tail =>
    obtain ⟨offset, token⟩ := l
    cases token with
    | number x => cases h; exact ⟨.number x, Nat.zero_le _, .cons _ _ .nil, rfl⟩
    | text x => cases h; exact ⟨.text x, Nat.zero_le _, .cons _ _ .nil, rfl⟩
    | word w =>
      simp only [primary] at h
      cases hv : literalWord? w with
      | none => rw [hv] at h; cases h
      | some v =>
        rw [hv] at h
        cases h
        exact ⟨.constant w v (literalWord?_eq_some.1 hv), Nat.zero_le _, .cons _ _ .nil, rfl⟩
    | openParen => exact sound_bracketed ih .round hw h
    | openBracket => exact sound_bracketed ih .square hw h
    | openBrace => exact sound_bracketed ih .curly hw h
    | _ => cases h

theorem sound_signed (ih : ∀ m, n = m + 1 → Sound stop m) (hw : Written input)
    (h : found (signed stop (deeper stop n) input) = some (e, rest)) :
    ∃ s : Signed, s.nesting ≤ n ∧ Spelled s.tokens input rest ∧ s.denoted = e := by
  cases input with
  | nil => cases h
  | cons l tail =>
    obtain ⟨offset, token⟩ := l
    by_cases ht : token = .minus
    · subst ht
      rw [found_signed_minus] at h
      cases n with
      | zero => cases h
      | succ m =>
        obtain ⟨⟨e, _⟩, he, h⟩ := Option.map_eq_some_iff.1 h
        cases h
        have hm : Spelled [.minus] (⟨offset, .minus⟩ :: tail) tail := .cons _ _ .nil
        obtain ⟨s, hn, hs, rfl⟩ := (ih m rfl).signed (hm.written hw) he
        exact ⟨.minus s, Nat.succ_le_succ hn, hm.append hs, rfl⟩
    · rw [signed_eq_primary _ _ _ _ ht] at h
      obtain ⟨p, hp⟩ := sound_primary ih hw h
      exact ⟨.primary p, hp⟩

theorem sound_links (ih : ∀ m, n = m + 1 → Sound stop m) {left : Expression} {es : List Expression}
    (hw : Written input)
    (h : found (links (signed stop (deeper stop n)) left input) = some (es, rest)) :
    ∃ k : Links, k.nesting ≤ n ∧ Spelled k.tokens input rest ∧ k.terms left = es := by
  refine links_induction (fun left input es rest => Written input →
    ∃ k : Links, k.nesting ≤ n ∧ Spelled k.tokens input rest ∧ k.terms left = es) ?_ ?_
    left input h hw
  · intro left input _
    exact ⟨.none, Nat.zero_le _, .nil, rfl⟩
  · intro left input link e mid es rest hlink he hes hw
    obtain ⟨operator, ho, hbuild⟩ := exists_operator_of_next? hw hlink
    obtain ⟨s, hs, hspelled, rfl⟩ := sound_signed ih (ho.written hw) he
    obtain ⟨k, hk, hlinks, rfl⟩ := hes (hspelled.written (ho.written hw))
    refine ⟨.more operator s k, Nat.max_le.2 ⟨hs, hk⟩, (ho.append hspelled).append hlinks, ?_⟩
    rw [hbuild]
    rfl

theorem sound_chain (ih : ∀ m, n = m + 1 → Sound stop m) (hw : Written input)
    (h : found (chain (signed stop (deeper stop n)) input) = some (e, rest)) :
    ∃ c : Chain, c.nesting ≤ n ∧ Spelled c.tokens input rest ∧ c.denoted = e := by
  rw [found_chain] at h
  obtain ⟨⟨first, mid⟩, hfirst, h⟩ := Option.bind_eq_some_iff.1 h
  obtain ⟨⟨es, _⟩, hes, h⟩ := Option.map_eq_some_iff.1 h
  cases h
  obtain ⟨s, hs, hspelled, rfl⟩ := sound_signed ih hw hfirst
  obtain ⟨k, hk, hlinks, rfl⟩ := sound_links ih (hspelled.written hw) hes
  exact ⟨.mk s k, Nat.max_le.2 ⟨hs, hk⟩, hspelled.append hlinks, rfl⟩

theorem sound_negation (ih : ∀ m, n = m + 1 → Sound stop m) (hw : Written input)
    (h : found (negation stop (deeper stop n) input) = some (e, rest)) :
    ∃ g : Negation, g.nesting ≤ n ∧ Spelled g.tokens input rest ∧ g.denoted = e := by
  cases input with
  | nil => cases h
  | cons l tail =>
    obtain ⟨offset, token⟩ := l
    cases ht : isNegation token with
    | true =>
      obtain ⟨s, rfl⟩ := isNegation_iff.1 ht
      rw [found_negation_of_isNegation _ _ _ _ ht] at h
      cases n with
      | zero => cases h
      | succ m =>
        obtain ⟨⟨e, _⟩, he, h⟩ := Option.map_eq_some_iff.1 h
        cases h
        have hm : Spelled [s.notToken] (⟨offset, s.notToken⟩ :: tail) tail := .cons _ _ .nil
        obtain ⟨g, hn, hg, rfl⟩ := (ih m rfl).negation (hm.written hw) he
        exact ⟨.not s g, Nat.succ_le_succ hn, hm.append hg, rfl⟩
    | false =>
      rw [found_negation_of_not_isNegation _ _ _ _ ht] at h
      obtain ⟨c, hc⟩ := sound_chain ih hw h
      exact ⟨.chain c, hc⟩

theorem sound_conjunction (ih : ∀ m, n = m + 1 → Sound stop m) (hw : Written input)
    (h : found (conjunction stop (deeper stop n) input) = some (e, rest)) :
    ∃ c : Conjunction, c.nesting ≤ n ∧ Spelled c.tokens input rest ∧ joined .all c.terms = e := by
  rw [found_conjunction] at h
  obtain ⟨⟨es, _⟩, hes, h⟩ := Option.map_eq_some_iff.1 h
  cases h
  obtain ⟨c, hn, hc, rfl⟩ := terms_induction (fun input es rest => Written input →
    ∃ c : Conjunction, c.nesting ≤ n ∧ Spelled c.tokens input rest ∧ c.terms = es)
    (fun input e rest he hw => by
      obtain ⟨g, hn, hg, rfl⟩ := sound_negation ih hw he
      exact ⟨.one g, hn, hg, rfl⟩)
    (fun input e l tail es rest he hl hes hw => by
      obtain ⟨offset, token⟩ := l
      obtain ⟨s, rfl⟩ := isConjunction_iff.1 hl
      obtain ⟨g, hn, hg, rfl⟩ := sound_negation ih hw he
      have hs : Spelled [s.andToken] (⟨offset, s.andToken⟩ :: tail) tail := .cons _ _ .nil
      obtain ⟨c, hm, hc, rfl⟩ := hes (hs.written (hg.written hw))
      exact ⟨.more g s c, Nat.max_le.2 ⟨hn, hm⟩, hg.append (hs.append hc), rfl⟩)
    input hes hw
  exact ⟨c, hn, hc, rfl⟩

theorem sound_disjunction (ih : ∀ m, n = m + 1 → Sound stop m) (hw : Written input)
    (h : found (disjunction stop (deeper stop n) input) = some (e, rest)) :
    ∃ d : Disjunction, d.nesting ≤ n ∧ Spelled d.tokens input rest ∧ d.denoted = e := by
  rw [found_disjunction] at h
  obtain ⟨⟨es, _⟩, hes, h⟩ := Option.map_eq_some_iff.1 h
  cases h
  obtain ⟨d, hn, hd, rfl⟩ := terms_induction (fun input es rest => Written input →
    ∃ d : Disjunction, d.nesting ≤ n ∧ Spelled d.tokens input rest ∧ d.terms = es)
    (fun input e rest he hw => by
      obtain ⟨c, hn, hc, rfl⟩ := sound_conjunction ih hw he
      exact ⟨.one c, hn, hc, rfl⟩)
    (fun input e l tail es rest he hl hes hw => by
      obtain ⟨offset, token⟩ := l
      obtain ⟨s, rfl⟩ := isDisjunction_iff.1 hl
      obtain ⟨c, hn, hc, rfl⟩ := sound_conjunction ih hw he
      have hs : Spelled [s.orToken] (⟨offset, s.orToken⟩ :: tail) tail := .cons _ _ .nil
      obtain ⟨d, hm, hd, rfl⟩ := hes (hs.written (hc.written hw))
      exact ⟨.more c s d, Nat.max_le.2 ⟨hn, hm⟩, hc.append (hs.append hd), rfl⟩)
    input hes hw
  exact ⟨d, hn, hd, rfl⟩

/-- **The readers of every depth find only what is derived.** -/
theorem sound (stop n : Nat) : Sound stop n := by
  induction n with
  | zero =>
    have ih (m : Nat) (hm : 0 = m + 1) : Sound stop m := absurd hm (Nat.succ_ne_zero m).symm
    exact ⟨sound_disjunction ih, sound_negation ih, sound_signed ih⟩
  | succ n hn =>
    have ih (m : Nat) (hm : n + 1 = m + 1) : Sound stop m := Nat.succ.inj hm ▸ hn
    exact ⟨sound_disjunction ih, sound_negation ih, sound_signed ih⟩

end Sound

/-! ## The lexemes of a text are written -/

theorem Piece.outcome_oneOrTwo (long : Token) (short : Except Fault Token) (c d : Char)
    (rest : List Char) :
    (oneOrTwo long short c d rest).outcome = .ok long ∨
      (oneOrTwo long short c d rest).outcome = short := by
  unfold oneOrTwo
  split
  · split
    · exact .inl rfl
    · exact .inr rfl
  · exact .inr rfl

theorem Piece.written_text {quote : Char} {rest : List Char} {token : Token}
    (h : (text quote rest).outcome = .ok token) : token.Written := by
  unfold text at h
  split at h
  · cases h; exact ⟨nofun, nofun⟩
  · cases h

theorem Piece.written_number {c : Char} {rest : List Char} {token : Token}
    (h : (number c rest).outcome = .ok token) : token.Written := by
  unfold number at h
  dsimp only at h
  split at h
  · cases h; exact ⟨nofun, nofun⟩
  · cases h

theorem Piece.written_oneOrTwo {long : Token} {short : Except Fault Token} {c d : Char}
    {rest : List Char} {token : Token} (h : (oneOrTwo long short c d rest).outcome = .ok token)
    (hl : long.Written) (hs : ∀ t, short = .ok t → t.Written) : token.Written := by
  obtain he | he := outcome_oneOrTwo long short c d rest
  · rw [he] at h; cases h; exact hl
  · rw [he] at h; exact hs token h

theorem Piece.written_next {c : Char} {rest : List Char} {token : Token}
    (h : (next c rest).outcome = .ok token) : token.Written := by
  unfold next at h
  dsimp only at h
  split at h <;> first
    | exact written_oneOrTwo h ⟨nofun, nofun⟩ fun _ hs => by cases hs <;> exact ⟨nofun, nofun⟩
    | exact written_text h
    | (cases h; exact ⟨nofun, nofun⟩)
    | skip
  split at h
  · exact written_number h
  · split at h
    · cases h; exact ⟨nofun, nofun⟩
    · cases h

theorem written_of_lexemesFrom (offset : Nat) (cs : List Char) {ls : List Lexeme}
    (h : lexemesFrom offset cs = .ok ls) : Written ls := by
  fun_induction lexemesFrom offset cs generalizing ls with
  | case1 => cases h; exact nofun
  | case2 offset c rest hc ih => exact ih h
  | case3 => cases h
  | case4 offset c rest _ piece token hp =>
    rename_i ih
    cases hrest : lexemesFrom (offset + byteLength piece.taken) piece.rest with
    | error e => rw [hrest] at h; cases h
    | ok more =>
      rw [hrest] at h
      cases h
      exact List.forall_mem_cons.2 ⟨Piece.written_next hp, ih hrest⟩

/-! ## The language of guards -/

theorem ofLexemes_eq_ok_iff_found {stop : Nat} {input : List Lexeme} {e : Expression} :
    ofLexemes stop input = .ok e ↔
      input ≠ [] ∧ found (disjunction stop (deeper stop maxNesting) input) = some (e, []) := by
  cases input with
  | nil => exact ⟨nofun, fun h => absurd rfl h.1⟩
  | cons l tail =>
    unfold ofLexemes
    dsimp only
    rw [alternatives_levels]
    cases disjunction stop (deeper stop maxNesting) (l :: tail) with
    | error fault => exact ⟨nofun, nofun⟩
    | ok p =>
      obtain ⟨value, rest, _⟩ := p
      cases rest with
      | nil => simp [found]
      | cons l' rest => simp [found]

/-- **A row of lexemes is read exactly if its tokens are derived.** -/
theorem ofLexemes_eq_ok_iff {stop : Nat} {input : List Lexeme} (hw : Written input)
    (e : Expression) :
    ofLexemes stop input = .ok e ↔
      input ≠ [] ∧ ∃ d : Disjunction, d.tokens = input.map Lexeme.token ∧ d.nesting ≤ maxNesting ∧
        d.denoted = e := by
  rw [ofLexemes_eq_ok_iff_found]
  refine and_congr_right fun _ => ?_
  constructor
  · intro h
    obtain ⟨d, hn, hd, he⟩ := (sound stop maxNesting).disjunction hw h
    exact ⟨d, spelled_all.1 hd, hn, he⟩
  · rintro ⟨d, hd, hn, rfl⟩
    exact found_disjunction_of_terms
      (found_terms_of_disjunction d hn (spelled_all.2 hd) trivial)

/-- **The grammar of guards is unambiguous**: the tokens determine the expression. -/
theorem Grammar.Disjunction.denoted_eq_of_tokens_eq {d d' : Disjunction}
    (h : d.tokens = d'.tokens) : d.denoted = d'.denoted := by
  let input : List Lexeme := d.tokens.map fun token => ⟨0, token⟩
  have hd : Spelled d.tokens input [] := spelled_all.2 (by simp [input, Function.comp_def])
  have hd' : Spelled d'.tokens input [] := h ▸ hd
  have hfound := @found_terms_of_disjunction 0 _ _ [] d (Nat.le_max_left _ d'.nesting) hd trivial
  rw [@found_terms_of_disjunction 0 _ _ [] d' (Nat.le_max_right d.nesting _) hd' trivial] at hfound
  exact (congrArg (fun r => joined .any r.1) (Option.some.inj hfound)).symm

/-- **The guards that can be read, and their expressions**: exactly those whose text is cut into
lexemes, at least one, with tokens that are derived with at most 64 brackets, negations and minus
signs around each other; the expression is the one that the derivation denotes. -/
theorem read_eq_ok_iff (source : String) (e : Expression) :
    read source = .ok e ↔
      ∃ ls, lexemes source = .ok ls ∧ ls ≠ [] ∧
        ∃ d : Disjunction, d.tokens = ls.map Lexeme.token ∧ d.nesting ≤ 64 ∧ d.denoted = e := by
  show lexemes source >>= ofLexemes source.utf8ByteSize = .ok e ↔ _
  cases hls : lexemes source with
  | error fault => exact ⟨nofun, nofun⟩
  | ok ls =>
    refine (ofLexemes_eq_ok_iff (written_of_lexemesFrom 0 _ hls) e).trans ?_
    constructor
    · intro h
      exact ⟨ls, rfl, h⟩
    · rintro ⟨_, hl, h⟩
      cases hl
      exact h

end Runbook.Guard
