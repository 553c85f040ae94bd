import Runbook.Proofs.Guard.Lookahead

/-!
# What is derived is found

If the lexemes ahead spell a derivation, and the token after them does not go on with it, then the
reader of that symbol finds what the derivation denotes and leaves the rest.  The proof is a
recursion over the derivation, one case for each production; the depth that is left only has to be
as large as the nesting.
-/

namespace Runbook.Guard

open Grammar

/-! ## One step of a row -/

section Steps
variable {stop : Nat} {isLink : Token → Bool} {reader : Reader Expression} {e : Expression}
  {es : List Expression} {input rest : List Lexeme} {l : Lexeme} {tail : List Lexeme}

theorem found_terms_one (he : found (reader input) = some (e, rest)) (hr : NotAhead isLink rest) :
    found (terms isLink reader input) = some ([e], rest) := by
  rw [found_terms, he]
  cases rest with
  | nil => rfl
  | cons l tail => exact if_neg (Bool.eq_false_iff.1 hr)

theorem found_terms_more (he : found (reader input) = some (e, l :: tail))
    (hl : isLink l.token = true) (hes : found (terms isLink reader tail) = some (es, rest)) :
    found (terms isLink reader input) = some (e :: es, rest) := by
  rw [found_terms, he]
  show (if isLink l.token = true then _ else _) = _
  rw [if_pos hl, hes]
  rfl

theorem exists_next?_of_operator {operator : Operator} (h : Spelled operator.tokens input rest) :
    ∃ link, Link.next? input = some link ∧ link.rest = rest ∧
      ∀ left right, link.value.build left right = operator.denoted left right := by
  cases operator with
  | notMemberOf =>
    obtain ⟨_, mid, rfl, h₁⟩ := spelled_cons.1 h
    obtain ⟨_, _, rfl, h₂⟩ := spelled_cons.1 h₁
    obtain rfl := spelled_nil.1 h₂
    exact ⟨_, rfl, rfl, fun _ _ => rfl⟩
  | _ =>
    obtain ⟨_, _, rfl, h₁⟩ := spelled_cons.1 h
    obtain rfl := spelled_nil.1 h₁
    exact ⟨_, rfl, rfl, fun _ _ => rfl⟩

theorem found_links_none {left : Expression} (h : NotAhead extendsChain rest) :
    found (links reader left rest) = some ([], rest) := by
  rw [found_links, next?_eq_none h]

theorem found_links_more {left : Expression} {operator : Operator} {mid mid' : List Lexeme}
    (ho : Spelled operator.tokens input mid) (he : found (reader mid) = some (e, mid'))
    (hes : found (links reader e mid') = some (es, rest)) :
    found (links reader left input) = some (operator.denoted left e :: es, rest) := by
  obtain ⟨link, hlink, rfl, hbuild⟩ := exists_next?_of_operator ho
  rw [found_links, hlink]
  show (found (reader link.rest)).bind _ = _
  rw [he]
  show (found (links reader e mid')).map _ = _
  rw [hes, ← hbuild]
  rfl

theorem found_sequence_closing (close : Token) (afterComma : Bool) (offset : Nat) :
    found (sequence stop reader close afterComma (⟨offset, close⟩ :: rest)) =
      some (⟨[], afterComma⟩, rest) := by
  rw [found_sequence]
  exact if_pos rfl

theorem found_sequence_last {close : Token} {afterComma : Bool} {mid : List Lexeme} {offset : Nat}
    (hl : l.token ≠ close) (hc : close ≠ .comma)
    (he : found (reader (l :: mid)) = some (e, ⟨offset, close⟩ :: rest)) :
    found (sequence stop reader close afterComma (l :: mid)) = some (⟨[e], false⟩, rest) := by
  rw [found_sequence]
  show (if l.token = close then _ else _) = _
  rw [if_neg hl, he]
  show (if close = .comma then _ else if close = close then _ else _) = _
  rw [if_neg hc, if_pos rfl]

theorem found_sequence_more {close : Token} {afterComma comma : Bool} {mid : List Lexeme}
    {offset : Nat} (hl : l.token ≠ close)
    (he : found (reader (l :: mid)) = some (e, ⟨offset, .comma⟩ :: tail))
    (hes : found (sequence stop reader close true tail) = some (⟨es, comma⟩, rest)) :
    found (sequence stop reader close afterComma (l :: mid)) = some (⟨e :: es, comma⟩, rest) := by
  rw [found_sequence]
  show (if l.token = close then _ else _) = _
  rw [if_neg hl, he]
  simp only [Option.bind, if_true, hes, Option.map]

/-- What is nested once at least needs a depth below. -/
theorem exists_depth_below {k n : Nat} (h : k + 1 ≤ n) : ∃ m, n = m + 1 ∧ k ≤ m :=
  ⟨n - 1, by omega, by omega⟩

end Steps

/-! ## Whole derivations -/

section Complete
variable {stop : Nat}

theorem found_disjunction_of_terms {n : Nat} {input rest : List Lexeme} {es : List Expression}
    (h : found (terms isDisjunction (conjunction stop (deeper stop n)) input) = some (es, rest)) :
    found (disjunction stop (deeper stop n) input) = some (joined .any es, rest) := by
  rw [found_disjunction, h]
  rfl

theorem found_conjunction_of_terms {n : Nat} {input rest : List Lexeme} {es : List Expression}
    (h : found (terms isConjunction (negation stop (deeper stop n)) input) = some (es, rest)) :
    found (conjunction stop (deeper stop n) input) = some (joined .all es, rest) := by
  rw [found_conjunction, h]
  rfl

mutual

theorem found_terms_of_disjunction {n : Nat} {input rest : List Lexeme} :
    (d : Disjunction) → d.nesting ≤ n → Spelled d.tokens input rest →
    NotAhead extendsDisjunction rest →
    found (terms isDisjunction (conjunction stop (deeper stop n)) input) = some (d.terms, rest)
  | .one term, hn, hs, hr => by
    have hterm := found_terms_of_conjunction term hn hs
      (hr.mono fun _ h => by simp [extendsDisjunction, h])
    exact found_terms_one (found_conjunction_of_terms hterm)
      (hr.mono fun _ h => by simp [extendsDisjunction, h])
  | .more term s more, hn, hs, hr => by
    obtain ⟨hterm, hmore⟩ := Nat.max_le.1 hn
    obtain ⟨mid, hfirst, hs⟩ := spelled_append.1 hs
    obtain ⟨offset, tail, rfl, htail⟩ := spelled_cons.1 hs
    have hterm := found_terms_of_conjunction term hterm hfirst (notAhead_orToken s _ _)
    exact found_terms_more (found_conjunction_of_terms hterm) (isDisjunction_iff.2 ⟨s, rfl⟩)
      (found_terms_of_disjunction more hmore htail hr)

theorem found_terms_of_conjunction {n : Nat} {input rest : List Lexeme} :
    (c : Conjunction) → c.nesting ≤ n → Spelled c.tokens input rest →
    NotAhead extendsConjunction rest →
    found (terms isConjunction (negation stop (deeper stop n)) input) = some (c.terms, rest)
  | .one term, hn, hs, hr =>
    found_terms_one
      (found_of_negation term hn hs (hr.mono fun _ h => by simp [extendsConjunction, h]))
      (hr.mono fun _ h => by simp [extendsConjunction, h])
  | .more term s more, hn, hs, hr => by
    obtain ⟨hterm, hmore⟩ := Nat.max_le.1 hn
    obtain ⟨mid, hfirst, hs⟩ := spelled_append.1 hs
    obtain ⟨offset, tail, rfl, htail⟩ := spelled_cons.1 hs
    exact found_terms_more (found_of_negation term hterm hfirst (notAhead_andToken s _ _))
      (isConjunction_iff.2 ⟨s, rfl⟩) (found_terms_of_conjunction more hmore htail hr)

theorem found_of_negation {n : Nat} {input rest : List Lexeme} :
    (g : Negation) → g.nesting ≤ n → Spelled g.tokens input rest → NotAhead extendsChain rest →
    found (negation stop (deeper stop n) input) = some (g.denoted, rest)
  | .not s operand, hn, hs, hr => by
    obtain ⟨offset, tail, rfl, htail⟩ := spelled_cons.1 hs
    obtain ⟨m, rfl, hm⟩ := exists_depth_below hn
    rw [found_negation_of_isNegation _ _ _ _ (isNegation_iff.2 ⟨s, rfl⟩)]
    show (found (negation stop (deeper stop m) tail)).map _ = _
    rw [found_of_negation operand hm htail hr]
    rfl
  | .chain c, hn, hs, hr => by
    obtain ⟨offset, token, tail, rfl, ht⟩ := (begin_chain c).spelled hs
    rw [found_negation_of_not_isNegation _ _ _ _ (not_isNegation_of_beginsChain ht)]
    exact found_of_chain c hn hs hr

theorem found_of_chain {n : Nat} {input rest : List Lexeme} :
    (c : Chain) → c.nesting ≤ n → Spelled c.tokens input rest → NotAhead extendsChain rest →
    found (chain (signed stop (deeper stop n)) input) = some (c.denoted, rest)
  | .mk first more, hn, hs, hr => by
    obtain ⟨hfirst, hmore⟩ := Nat.max_le.1 hn
    obtain ⟨mid, hs, htail⟩ := spelled_append.1 hs
    rw [found_chain, found_of_signed first hfirst hs]
    show (found (links _ first.denoted mid)).map _ = _
    rw [found_of_links first.denoted more hmore htail hr]
    rfl

theorem found_of_links {n : Nat} {input rest : List Lexeme} (left : Expression) :
    (k : Links) → k.nesting ≤ n → Spelled k.tokens input rest → NotAhead extendsChain rest →
    found (links (signed stop (deeper stop n)) left input) = some (k.terms left, rest)
  | .none, hn, hs, hr => by
    obtain rfl := spelled_nil.1 hs
    exact found_links_none hr
  | .more operator operand more, hn, hs, hr => by
    obtain ⟨hoperand, hmore⟩ := Nat.max_le.1 hn
    obtain ⟨_, hs, htail⟩ := spelled_append.1 hs
    obtain ⟨_, ho, hs⟩ := spelled_append.1 hs
    exact found_links_more ho (found_of_signed operand hoperand hs)
      (found_of_links operand.denoted more hmore htail hr)

theorem found_of_signed {n : Nat} {input rest : List Lexeme} :
    (s : Signed) → s.nesting ≤ n → Spelled s.tokens input rest →
    found (signed stop (deeper stop n) input) = some (s.denoted, rest)
  | .minus operand, hn, hs => by
    obtain ⟨offset, tail, rfl, htail⟩ := spelled_cons.1 hs
    obtain ⟨m, rfl, hm⟩ := exists_depth_below hn
    rw [found_signed_minus]
    show (found (signed stop (deeper stop m) tail)).map _ = _
    rw [found_of_signed operand hm htail]
    rfl
  | .primary p, hn, hs => by
    obtain ⟨offset, token, tail, rfl, ht⟩ := (begin_primary p).spelled hs
    rw [signed_eq_primary _ _ _ _ (ne_minus_of_beginsPrimary ht)]
    exact found_of_primary p hn hs

theorem found_of_primary {n : Nat} {input rest : List Lexeme} :
    (p : Primary) → p.nesting ≤ n → Spelled p.tokens input rest →
    found (primary stop (deeper stop n) input) = some (p.denoted, rest)
  | .number value, hn, hs => by
    obtain ⟨offset, tail, rfl, htail⟩ := spelled_cons.1 hs
    obtain rfl := spelled_nil.1 htail
    rfl
  | .text value, hn, hs => by
    obtain ⟨offset, tail, rfl, htail⟩ := spelled_cons.1 hs
    obtain rfl := spelled_nil.1 htail
    rfl
  | .constant word value known, hn, hs => by
    obtain ⟨offset, tail, rfl, htail⟩ := spelled_cons.1 hs
    obtain rfl := spelled_nil.1 htail
    simp only [primary, literalWord?_eq_some.2 known]
    rfl
  | .bracketed b content, hn, hs => by
    obtain ⟨offset, tail, rfl, htail⟩ := spelled_cons.1 hs
    obtain ⟨m, rfl, hm⟩ := exists_depth_below hn
    rw [found_primary_opening]
    show (found (sequence stop _ b.closing false tail)).map _ = _
    rw [found_of_content b content hm htail]
    rfl

theorem found_of_content {n : Nat} {input rest : List Lexeme} (b : Brackets) :
    (c : Content) → c.nesting ≤ n → Spelled (c.tokens ++ [b.closing]) input rest →
    found (sequence stop (disjunction stop (deeper stop n)) b.closing false input) =
      some (⟨c.expressions, c.trailingComma⟩, rest)
  | .empty, hn, hs => by
    obtain ⟨offset, tail, rfl, htail⟩ := spelled_cons.1 hs
    obtain rfl := spelled_nil.1 htail
    exact found_sequence_closing ..
  | .items i, hn, hs => found_of_items b false i hn hs

theorem found_of_items {n : Nat} {input rest : List Lexeme} (b : Brackets) (afterComma : Bool) :
    (i : Items) → i.nesting ≤ n → Spelled (i.tokens ++ [b.closing]) input rest →
    found (sequence stop (disjunction stop (deeper stop n)) b.closing afterComma input) =
      some (⟨i.expressions, i.trailingComma⟩, rest)
  | .last item comma, hn, hs => by
    have hb := begin_items (.last item comma)
    obtain ⟨mid, hs, hend⟩ := spelled_append.1 hs
    obtain ⟨o, token, tail, rfl, ht⟩ := hb.spelled hs
    obtain ⟨mid', hs, hcomma⟩ := spelled_append.1 hs
    obtain ⟨offset, rest', rfl, hrest⟩ := spelled_cons.1 hend
    obtain rfl := spelled_nil.1 hrest
    cases comma with
    | false =>
      obtain rfl := spelled_nil.1 hcomma
      have hitem := found_terms_of_disjunction item hn hs (notAhead_closing b _ _)
      exact found_sequence_last (ne_closing_of_beginsDisjunction ht b) b.closing_ne_comma
        (found_disjunction_of_terms hitem)
    | true =>
      obtain ⟨offset', tail', rfl, htail⟩ := spelled_cons.1 hcomma
      obtain rfl := spelled_nil.1 htail
      have hitem := found_terms_of_disjunction item hn hs (notAhead_comma _ _)
      exact found_sequence_more (ne_closing_of_beginsDisjunction ht b)
        (found_disjunction_of_terms hitem) (found_sequence_closing ..)
  | .more item more, hn, hs => by
    obtain ⟨hitem, hmore⟩ := Nat.max_le.1 hn
    have hs : Spelled (item.tokens ++ .comma :: (more.tokens ++ [b.closing])) input rest := by
      simpa [Items.tokens] using hs
    obtain ⟨mid, hs, hend⟩ := spelled_append.1 hs
    obtain ⟨offset, tail', rfl, htail⟩ := spelled_cons.1 hend
    obtain ⟨o, token, tail, rfl, ht⟩ := (begin_disjunction item).spelled hs
    have hitem := found_terms_of_disjunction item hitem hs (notAhead_comma _ _)
    exact found_sequence_more (ne_closing_of_beginsDisjunction ht b)
      (found_disjunction_of_terms hitem) (found_of_items b true more hmore htail)

end

end Complete

end Runbook.Guard
