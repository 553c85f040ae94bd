import Runbook.Proofs.Guard.Reader

/-!
# What a look at the next token tells

The readers of guards decide by the next token, or the next two, whether a row of terms goes on and
what begins.  Here stands which tokens go on with a derivation and which tokens begin one: the two
kinds never overlap where a reader has to choose.
-/

namespace Runbook.Guard

open Grammar

/-! ## Lexemes that spell tokens -/

/-- The input begins with lexemes of these tokens, and `rest` is left after them. -/
def Spelled (tokens : List Token) (input rest : List Lexeme) : Prop :=
  ∃ taken, input = taken ++ rest ∧ taken.map Lexeme.token = tokens

theorem spelled_nil {input rest : List Lexeme} : Spelled [] input rest ↔ input = rest := by
  simp [Spelled]

theorem spelled_cons {token : Token} {tokens : List Token} {input rest : List Lexeme} :
    Spelled (token :: tokens) input rest ↔
      ∃ offset tail, input = ⟨offset, token⟩ :: tail ∧ Spelled tokens tail rest := by
  constructor
  · rintro ⟨taken, rfl, h⟩
    obtain ⟨⟨offset, _⟩, taken, rfl, rfl, rfl⟩ := List.map_eq_cons_iff.1 h
    exact ⟨offset, taken ++ rest, rfl, taken, rfl, rfl⟩
  · rintro ⟨offset, _, rfl, taken, rfl, rfl⟩
    exact ⟨⟨offset, token⟩ :: taken, rfl, rfl⟩

theorem spelled_append {front back : List Token} {input rest : List Lexeme} :
    Spelled (front ++ back) input rest ↔
      ∃ mid, Spelled front input mid ∧ Spelled back mid rest := by
  constructor
  · rintro ⟨taken, rfl, h⟩
    obtain ⟨first, second, rfl, rfl, rfl⟩ := List.map_eq_append_iff.1 h
    exact ⟨second ++ rest, ⟨first, List.append_assoc .., rfl⟩, second, rfl, rfl⟩
  · rintro ⟨_, ⟨first, rfl, rfl⟩, second, rfl, rfl⟩
    exact ⟨first ++ second, (List.append_assoc ..).symm, List.map_append⟩

theorem spelled_all {tokens : List Token} {input : List Lexeme} :
    Spelled tokens input [] ↔ tokens = input.map Lexeme.token := by
  simp [Spelled, eq_comm]

/-! ## Tokens that go on -/

/-- The token begins a link. -/
def extendsChain : Token → Bool
  | .comparison _ => true
  | .word w => w == "in" || w == "not" || w == "属于"
  | _ => false

/-- The token goes on with a conjunction. -/
def extendsConjunction (token : Token) : Bool :=
  isConjunction token || extendsChain token

/-- The token goes on with a disjunction. -/
def extendsDisjunction (token : Token) : Bool :=
  isDisjunction token || extendsConjunction token

/-- The input does not begin with such a token. -/
def NotAhead (p : Token → Bool) : List Lexeme → Prop
  | [] => True
  | l :: _ => p l.token = false

theorem NotAhead.mono {p q : Token → Bool} {input : List Lexeme} (h : NotAhead p input)
    (hq : ∀ token, q token = true → p token = true) : NotAhead q input := by
  cases input with
  | nil => trivial
  | cons l rest => exact Bool.eq_false_iff.2 fun hl => by simp [NotAhead, hq _ hl] at h

theorem next?_eq_none {input : List Lexeme} (h : NotAhead extendsChain input) :
    Link.next? input = none := by
  unfold Link.next?
  split <;> simp_all [NotAhead, extendsChain]

theorem notAhead_orToken (s : Spelling) (offset : Nat) (rest : List Lexeme) :
    NotAhead extendsConjunction (⟨offset, s.orToken⟩ :: rest) := by
  cases s <;> rfl

theorem notAhead_andToken (s : Spelling) (offset : Nat) (rest : List Lexeme) :
    NotAhead extendsChain (⟨offset, s.andToken⟩ :: rest) := by
  cases s <;> rfl

theorem isDisjunction_iff {token : Token} :
    isDisjunction token = true ↔ ∃ s : Spelling, s.orToken = token := by
  constructor
  · intro h
    cases token with
    | either => exact ⟨.sign, rfl⟩
    | word w => exact ⟨.word, congrArg Token.word (eq_of_beq h).symm⟩
    | _ => cases h
  · rintro ⟨s, rfl⟩
    cases s <;> rfl

theorem isConjunction_iff {token : Token} :
    isConjunction token = true ↔ ∃ s : Spelling, s.andToken = token := by
  constructor
  · intro h
    cases token with
    | both => exact ⟨.sign, rfl⟩
    | word w => exact ⟨.word, congrArg Token.word (eq_of_beq h).symm⟩
    | _ => cases h
  · rintro ⟨s, rfl⟩
    cases s <;> rfl

theorem isNegation_iff {token : Token} :
    isNegation token = true ↔ ∃ s : Spelling, s.notToken = token := by
  constructor
  · intro h
    cases token with
    | bang => exact ⟨.sign, rfl⟩
    | word w => exact ⟨.word, congrArg Token.word (eq_of_beq h).symm⟩
    | _ => cases h
  · rintro ⟨s, rfl⟩
    cases s <;> rfl

theorem notAhead_comma (offset : Nat) (rest : List Lexeme) :
    NotAhead extendsDisjunction (⟨offset, .comma⟩ :: rest) :=
  rfl

theorem Grammar.Brackets.closing_ne_comma (b : Brackets) : b.closing ≠ .comma := by
  cases b <;> exact Token.noConfusion

theorem notAhead_closing (b : Brackets) (offset : Nat) (rest : List Lexeme) :
    NotAhead extendsDisjunction (⟨offset, b.closing⟩ :: rest) := by
  cases b <;> rfl

/-! ## Tokens that begin something -/

/-- A primary begins with the token. -/
def beginsPrimary : Token → Bool
  | .number _ | .text _ | .openParen | .openBracket | .openBrace => true
  | .word w => (literalWord? w).isSome
  | _ => false

/-- A chain begins with the token. -/
def beginsChain (token : Token) : Bool :=
  token == .minus || beginsPrimary token

/-- A disjunction begins with the token. -/
def beginsDisjunction (token : Token) : Bool :=
  isNegation token || beginsChain token

/-- The tokens are some, and begin so. -/
def Begin (p : Token → Bool) (tokens : List Token) : Prop :=
  ∃ token rest, tokens = token :: rest ∧ p token = true

theorem Begin.mono {p q : Token → Bool} {tokens : List Token} (h : Begin p tokens)
    (hq : ∀ token, p token = true → q token = true) : Begin q tokens := by
  obtain ⟨token, rest, rfl, ht⟩ := h
  exact ⟨token, rest, rfl, hq token ht⟩

theorem Begin.append {p : Token → Bool} {tokens : List Token} (h : Begin p tokens)
    (more : List Token) : Begin p (tokens ++ more) := by
  obtain ⟨token, rest, rfl, ht⟩ := h
  exact ⟨token, rest ++ more, rfl, ht⟩

theorem Begin.spelled {p : Token → Bool} {tokens : List Token} {input rest : List Lexeme}
    (h : Begin p tokens) (hs : Spelled tokens input rest) :
    ∃ offset token tail, input = ⟨offset, token⟩ :: tail ∧ p token = true := by
  obtain ⟨token, _, rfl, ht⟩ := h
  obtain ⟨offset, tail, rfl, _⟩ := spelled_cons.1 hs
  exact ⟨offset, token, tail, rfl, ht⟩

theorem literalWord?_eq_some {word : String} {value : Value} :
    literalWord? word = some value ↔ (word, value) ∈ constants := by
  constructor
  · unfold literalWord?
    split <;> simp_all [constants, eq_comm]
  · intro h
    simp only [constants, List.mem_cons, List.not_mem_nil, or_false, Prod.mk.injEq] at h
    obtain ⟨rfl, rfl⟩ | ⟨rfl, rfl⟩ | ⟨rfl, rfl⟩ | ⟨rfl, rfl⟩ | ⟨rfl, rfl⟩ | ⟨rfl, rfl⟩ := h <;> rfl

theorem begin_primary (p : Primary) : Begin beginsPrimary p.tokens := by
  cases p with
  | number value => exact ⟨_, _, rfl, rfl⟩
  | text value => exact ⟨_, _, rfl, rfl⟩
  | constant word value known =>
    exact ⟨_, _, rfl, Option.isSome_iff_exists.2 ⟨value, literalWord?_eq_some.2 known⟩⟩
  | bracketed brackets content => exact ⟨_, _, rfl, by cases brackets <;> rfl⟩

theorem begin_signed (s : Signed) : Begin beginsChain s.tokens := by
  cases s with
  | minus operand => exact ⟨_, _, rfl, rfl⟩
  | primary p => exact (begin_primary p).mono fun t h => by simp [beginsChain, h]

theorem begin_chain (c : Chain) : Begin beginsChain c.tokens := by
  cases c with
  | mk first links => exact (begin_signed first).append _

theorem begin_negation (g : Negation) : Begin beginsDisjunction g.tokens := by
  cases g with
  | not s operand => exact ⟨_, _, rfl, by simp [beginsDisjunction, isNegation_iff.2 ⟨s, rfl⟩]⟩
  | chain c => exact (begin_chain c).mono fun t h => by simp [beginsDisjunction, h]

theorem begin_conjunction (c : Conjunction) : Begin beginsDisjunction c.tokens := by
  cases c with
  | one term => exact begin_negation term
  | more term s rest => exact (begin_negation term).append _

theorem begin_disjunction (d : Disjunction) : Begin beginsDisjunction d.tokens := by
  cases d with
  | one term => exact begin_conjunction term
  | more term s rest => exact (begin_conjunction term).append _

theorem begin_items (i : Items) : Begin beginsDisjunction i.tokens := by
  cases i with
  | last item comma => exact (begin_disjunction item).append _
  | more item rest => exact (begin_disjunction item).append _

theorem not_isNegation_of_beginsChain {token : Token} (h : beginsChain token = true) :
    isNegation token = false := by
  cases token with
  | word w =>
    refine Bool.eq_false_iff.2 fun hw => ?_
    cases eq_of_beq hw
    cases h
  | bang => cases h
  | _ => rfl

theorem ne_minus_of_beginsPrimary {token : Token} (h : beginsPrimary token = true) :
    token ≠ .minus := by
  rintro rfl
  cases h

theorem ne_closing_of_beginsDisjunction {token : Token} (h : beginsDisjunction token = true)
    (b : Brackets) : token ≠ b.closing := by
  rintro rfl
  cases b <;> cases h

end Runbook.Guard
