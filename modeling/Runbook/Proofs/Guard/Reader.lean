import Runbook.Guard.Reader
import Runbook.Proofs.Guard.Grammar

/-!
# What the readers of guards find

The result of a reader carries a bound that depends on its input.  `found` forgets the bound and
the wording of errors, and keeps what was read and what is left.  Every reader has one equation for
what it finds in terms of what the readers that it calls find, and nothing else about readers is
needed to reason about them.
-/

namespace Runbook.Guard

variable {α : Type} {bound : Nat}

/-! ## What a reader finds -/

/-- **What was found**, and the lexemes that are left. -/
def found (outcome : Except SyntaxError (Parsed α bound)) : Option (α × List Lexeme) :=
  match outcome with
  | .ok p => some (p.value, p.rest)
  | .error _ => none

theorem found_map {β : Type} {large : Nat} {outcome : Except SyntaxError (Parsed α bound)}
    {f : Parsed α bound → Parsed β large} (made : α → β)
    (h : ∀ p, ((f p).value, (f p).rest) = (made p.value, p.rest)) :
    found (outcome.map f) = (found outcome).map fun r => (made r.1, r.2) := by
  cases outcome with
  | error e => rfl
  | ok p => exact congrArg some (h p)

theorem found_terms (isLink : Token → Bool) (term : Reader Expression) (input : List Lexeme) :
    found (terms isLink term input) = (found (term input)).bind fun
      | (first, []) => some ([first], [])
      | (first, l :: tail) =>
        if isLink l.token then
          (found (terms isLink term tail)).map fun more => (first :: more.1, more.2)
        else some ([first], l :: tail) := by
  rw [terms]
  cases term input with
  | error e => rfl
  | ok first =>
    obtain ⟨first, mid, hmid⟩ := first
    cases mid with
    | nil => rfl
    | cons l tail =>
      show found (if isLink l.token = true then _ else _) = if isLink l.token = true then _ else _
      split
      · cases terms isLink term tail with
        | error e => rfl
        | ok more => rfl
      · rfl

theorem found_links (operand : Reader Expression) (left : Expression) (input : List Lexeme) :
    found (links operand left input) =
      match Link.next? input with
      | none => some ([], input)
      | some link => (found (operand link.rest)).bind fun right =>
        (found (links operand right.1 right.2)).map fun more =>
          (link.value.build left right.1 :: more.1, more.2) := by
  rw [links]
  cases Link.next? input with
  | none => rfl
  | some link =>
    dsimp only
    cases operand link.rest with
    | error e => rfl
    | ok right =>
      dsimp only [found, Option.bind]
      cases links operand right.value right.rest with
      | error e => rfl
      | ok more => rfl

theorem found_chain (operand : Reader Expression) (input : List Lexeme) :
    found (chain operand input) = (found (operand input)).bind fun first =>
      (found (links operand first.1 first.2)).map fun more =>
        (Grammar.chained first.1 more.1, more.2) := by
  unfold chain
  cases operand input with
  | error e => rfl
  | ok first =>
    dsimp only [found, Option.bind]
    cases links operand first.value first.rest with
    | error e => rfl
    | ok more =>
      obtain ⟨values, rest, h⟩ := more
      cases values with
      | nil => rfl
      | cons value values => rfl

theorem found_sequence (stop : Nat) (item : Reader Expression) (close : Token) (afterComma : Bool)
    (input : List Lexeme) :
    found (sequence stop item close afterComma input) =
      match input with
      | [] => none
      | l :: rest =>
        if l.token = close then some (⟨[], afterComma⟩, rest)
        else (found (item (l :: rest))).bind fun
          | (_, []) => none
          | (first, l' :: tail) =>
            if l'.token = .comma then
              (found (sequence stop item close true tail)).map fun more =>
                (⟨first :: more.1.items, more.1.trailingComma⟩, more.2)
            else if l'.token = close then some (⟨[first], false⟩, tail)
            else none := by
  rw [sequence.eq_def]
  cases input with
  | nil =>
    dsimp only
    cases item [] with
    | error e => rfl
    | ok p => exact absurd p.shorter (Nat.not_lt_zero _)
  | cons l rest =>
    dsimp only
    split
    · rfl
    · cases item (l :: rest) with
      | error e => rfl
      | ok first =>
        obtain ⟨first, mid, hmid⟩ := first
        cases mid with
        | nil => rfl
        | cons l' tail =>
          show found (if l'.token = .comma then _ else _) =
            if l'.token = .comma then _ else _
          split
          · cases sequence stop item close true tail with
            | error e => rfl
            | ok more => rfl
          · split
            · rfl
            · rfl

/-! ## The readers of a depth -/

/-- The readers of what may be nested where so many more levels may be. -/
def deeper (stop : Nat) : Nat → Option Levels
  | 0 => none
  | n + 1 => some (levels stop n)

theorem levels_eq (stop n : Nat) : levels stop n = .over stop (deeper stop n) := by
  cases n with
  | zero => rfl
  | succ n => rfl

theorem alternatives_levels (stop n : Nat) :
    (levels stop n).alternatives = disjunction stop (deeper stop n) := by
  rw [levels_eq]
  rfl

section Depth
variable (stop n offset : Nat) (input rest : List Lexeme)

theorem found_disjunction :
    found (disjunction stop (deeper stop n) input) =
      (found (terms isDisjunction (conjunction stop (deeper stop n)) input)).map fun r =>
        (Grammar.joined .any r.1, r.2) :=
  found_map (Grammar.joined .any) fun _ => rfl

theorem found_conjunction :
    found (conjunction stop (deeper stop n) input) =
      (found (terms isConjunction (negation stop (deeper stop n)) input)).map fun r =>
        (Grammar.joined .all r.1, r.2) :=
  found_map (Grammar.joined .all) fun _ => rfl

theorem found_negation_of_isNegation {token : Token} (h : isNegation token = true) :
    found (negation stop (deeper stop n) (⟨offset, token⟩ :: rest)) =
      match n with
      | 0 => none
      | m + 1 => (found (negation stop (deeper stop m) rest)).map fun r => (.not r.1, r.2) := by
  show found (if isNegation token = true then _ else _) = _
  rw [if_pos h]
  cases n with
  | zero => rfl
  | succ m =>
    refine (found_map .not fun _ => rfl).trans (congrArg (Option.map _) ?_)
    exact congrArg (fun l : Levels => found (l.negation rest)) (levels_eq stop m)

theorem found_negation_of_not_isNegation {token : Token} (h : isNegation token = false) :
    found (negation stop (deeper stop n) (⟨offset, token⟩ :: rest)) =
      found (chain (signed stop (deeper stop n)) (⟨offset, token⟩ :: rest)) := by
  show found (if isNegation token = true then _ else _) = _
  rw [if_neg (by simp [h])]

theorem found_signed_minus :
    found (signed stop (deeper stop n) (⟨offset, .minus⟩ :: rest)) =
      match n with
      | 0 => none
      | m + 1 => (found (signed stop (deeper stop m) rest)).map fun r =>
        (Grammar.negated r.1, r.2) := by
  cases n with
  | zero => rfl
  | succ m =>
    refine (found_map Grammar.negated fun _ => rfl).trans (congrArg (Option.map _) ?_)
    exact congrArg (fun l : Levels => found (l.signed rest)) (levels_eq stop m)

theorem signed_eq_primary {token : Token} (h : token ≠ .minus) :
    signed stop (deeper stop n) (⟨offset, token⟩ :: rest) =
      primary stop (deeper stop n) (⟨offset, token⟩ :: rest) := by
  cases token with
  | minus => exact absurd rfl h
  | _ => rfl

theorem found_bracketed (close : Token) :
    found (bracketed stop (deeper stop (n + 1)) offset close input) =
      found (sequence stop (disjunction stop (deeper stop n)) close false input) :=
  congrArg (fun item => found (sequence stop item close false input)) (alternatives_levels stop n)

theorem found_primary_opening (brackets : Grammar.Brackets) :
    found (primary stop (deeper stop n) (⟨offset, brackets.opening⟩ :: rest)) =
      match n with
      | 0 => none
      | m + 1 =>
        (found (sequence stop (disjunction stop (deeper stop m)) brackets.closing false rest)).map
          fun r => (brackets.denoted r.1.items r.1.trailingComma, r.2) := by
  cases n with
  | zero => cases brackets <;> rfl
  | succ m =>
    have hb := congrArg (Option.map fun r => (brackets.denoted r.1.items r.1.trailingComma, r.2))
      (found_bracketed stop m offset rest brackets.closing)
    refine Eq.trans ?_ hb
    cases brackets with
    | round =>
      refine found_map (fun s : Sequence => Grammar.Brackets.round.denoted s.items s.trailingComma)
        fun p => ?_
      obtain ⟨⟨items, comma⟩, _, _⟩ := p
      match items, comma with
      | [], _ | [_], true | [_], false | _ :: _ :: _, _ => rfl
    | square => exact found_map (fun s : Sequence => Expression.list s.items) fun _ => rfl
    | curly => exact found_map (fun s : Sequence => Expression.list s.items) fun _ => rfl

end Depth

end Runbook.Guard
