import Runbook.Proofs.Guard.Cut
import Runbook.Reference

/-!
# The words of guards

A guard has eleven words: three connectives, two operators and six constants.  No derivation has
another one (`known_disjunction`), so a text with another word is not read, wherever the word stands
(`exists_error_of_word`).  The two words of `no value` are not among them: a text that has them
outside its text literals is not read either (`exists_error_of_noValue`).
-/

namespace Runbook.Guard
open Grammar

/-- **The words that mean something in a guard.** -/
def knownWords : List String :=
  ["and", "or", "not", "in", "属于", "True", "true", "False", "false", "None", "null"]

/-- The token is no word, or one that means something. -/
def Token.Known : Token → Prop
  | .word w => w ∈ knownWords
  | _ => True

/-! ## The words of a derivation -/

theorem known_orToken (s : Spelling) : s.orToken.Known := by
  cases s with
  | word => simp [Spelling.orToken, Token.Known, knownWords]
  | sign => trivial

theorem known_andToken (s : Spelling) : s.andToken.Known := by
  cases s with
  | word => simp [Spelling.andToken, Token.Known, knownWords]
  | sign => trivial

theorem known_notToken (s : Spelling) : s.notToken.Known := by
  cases s with
  | word => simp [Spelling.notToken, Token.Known, knownWords]
  | sign => trivial

theorem known_operator (operator : Operator) : ∀ token ∈ operator.tokens, token.Known := by
  cases operator <;> simp [Operator.tokens, Token.Known, knownWords]

theorem known_constant {word : String} {value : Value} (h : (word, value) ∈ constants) :
    word ∈ knownWords := by
  simp only [constants, List.mem_cons, List.not_mem_nil, or_false, Prod.mk.injEq] at h
  obtain ⟨rfl, -⟩ | ⟨rfl, -⟩ | ⟨rfl, -⟩ | ⟨rfl, -⟩ | ⟨rfl, -⟩ | ⟨rfl, -⟩ := h <;> simp [knownWords]

theorem known_brackets (b : Brackets) : b.opening.Known ∧ b.closing.Known := by
  cases b <;> exact ⟨trivial, trivial⟩

mutual

/-- **A derivation has no words but those that mean something.** -/
theorem known_disjunction : (d : Disjunction) → ∀ token ∈ d.tokens, token.Known
  | .one term => known_conjunction term
  | .more term spelling rest => List.forall_mem_append.mpr ⟨known_conjunction term,
      List.forall_mem_cons.mpr ⟨known_orToken spelling, known_disjunction rest⟩⟩

theorem known_conjunction : (c : Conjunction) → ∀ token ∈ c.tokens, token.Known
  | .one term => known_negation term
  | .more term spelling rest => List.forall_mem_append.mpr ⟨known_negation term,
      List.forall_mem_cons.mpr ⟨known_andToken spelling, known_conjunction rest⟩⟩

theorem known_negation : (g : Negation) → ∀ token ∈ g.tokens, token.Known
  | .not spelling operand =>
    List.forall_mem_cons.mpr ⟨known_notToken spelling, known_negation operand⟩
  | .chain chain => known_chain chain

theorem known_chain : (c : Chain) → ∀ token ∈ c.tokens, token.Known
  | .mk first links => List.forall_mem_append.mpr ⟨known_signed first, known_links links⟩

theorem known_links : (l : Links) → ∀ token ∈ l.tokens, token.Known
  | .none => nofun
  | .more operator operand rest => List.forall_mem_append.mpr
      ⟨List.forall_mem_append.mpr ⟨known_operator operator, known_signed operand⟩, known_links rest⟩

theorem known_signed : (s : Signed) → ∀ token ∈ s.tokens, token.Known
  | .minus operand => List.forall_mem_cons.mpr ⟨trivial, known_signed operand⟩
  | .primary primary => known_primary primary

theorem known_primary : (p : Primary) → ∀ token ∈ p.tokens, token.Known
  | .number _ => List.forall_mem_singleton.mpr trivial
  | .text _ => List.forall_mem_singleton.mpr trivial
  | .constant _ _ known => List.forall_mem_singleton.mpr (known_constant known)
  | .bracketed brackets content => List.forall_mem_append.mpr
      ⟨List.forall_mem_cons.mpr ⟨(known_brackets brackets).1, known_content content⟩,
        List.forall_mem_singleton.mpr (known_brackets brackets).2⟩

theorem known_content : (c : Content) → ∀ token ∈ c.tokens, token.Known
  | .empty => nofun
  | .items items => known_items items

theorem known_items : (i : Items) → ∀ token ∈ i.tokens, token.Known
  | .last item true => List.forall_mem_append.mpr
      ⟨known_disjunction item, List.forall_mem_singleton.mpr trivial⟩
  | .last item false => List.forall_mem_append.mpr ⟨known_disjunction item, nofun⟩
  | .more item rest => List.forall_mem_append.mpr
      ⟨known_disjunction item, List.forall_mem_cons.mpr ⟨trivial, known_items rest⟩⟩

end

/-! ## Texts with other words -/

/-- **A text with a word that means nothing is not read**, wherever the word stands. -/
theorem exists_error_of_word {source : String} {ls : List Lexeme} {l : Lexeme} {word : String}
    (hls : lexemes source = .ok ls) (hl : l ∈ ls) (hword : l.token = .word word)
    (hunknown : word ∉ knownWords) : ∃ fault, read source = .error fault := by
  cases hread : read source with
  | error fault => exact ⟨fault, rfl⟩
  | ok e =>
    exfalso
    obtain ⟨_, d, hls', htokens, _, _⟩ := exists_derivation_of_read hread
    obtain rfl := Except.ok.inj (hls.symm.trans hls')
    have hmem : Token.word word ∈ d.tokens := by
      rw [htokens, ← hword]
      exact List.mem_map_of_mem hl
    exact hunknown (known_disjunction d _ hmem)

theorem holds_eq_false {source : String} {fault : SyntaxError}
    (h : read (withoutBreaks source) = .error fault) : holds source = false := by
  unfold holds
  rw [h]

/-! ## The text of an output that cannot be used -/

/-- A word that begins as `value` does is not known. -/
theorem not_known_of_head {rest : List Char} : String.ofList ('v' :: rest) ∉ knownWords := by
  intro h
  have hheads : ∀ w ∈ knownWords, w.toList.head? ≠ some 'v' := by decide
  refine hheads _ h ?_
  rw [String.toList_ofList]
  rfl

/-- A word is the first lexeme of a text that begins with it, if the text can be cut. -/
theorem exists_lexeme_of_word {offset : Nat} {c : Char} {rest : List Char} {ls : List Lexeme}
    (hblank : Text.isBlank c = false) (hdigit : c.isDigit = false) (hc : Text.isWordStart c = true)
    (h : lexemesFrom offset (c :: rest) = .ok ls) :
    ∃ l ∈ ls, l.token = .word (String.ofList (c :: rest.takeWhile Text.isWordChar)) := by
  rw [lexemesFrom_cons, if_neg (Bool.eq_false_iff.mp hblank),
    Cut.next_of_isWordStart hc hdigit] at h
  dsimp only [Piece.word] at h
  cases hmore : lexemesFrom (offset + byteLength (c :: rest.takeWhile Text.isWordChar))
      (rest.dropWhile Text.isWordChar) with
  | error fault => rw [hmore] at h; cases h
  | ok more =>
    rw [hmore] at h
    obtain rfl := Except.ok.inj h
    exact ⟨_, List.mem_cons_self, rfl⟩

/-- **A text that has `no value` outside its text literals is not read**, whatever stands before and
after it. -/
theorem exists_error_of_noValue {source : String} {before after : List Char}
    (hbefore : Closed before)
    (hsource : source.toList = before ++ Reference.noValue.toList ++ after) :
    ∃ fault, read source = .error fault := by
  -- The text is cut at the blank in the middle: what follows begins with a word that is not known.
  let front : List Char := before ++ ['n', 'o']
  let back : List Char := ['v', 'a', 'l', 'u', 'e'] ++ after
  have hfront : Closed front := hbefore.append (by decide)
  have hcut : source.toList = front ++ ' ' :: back := by
    rw [hsource]
    simp [front, back, Reference.noValue]
  cases hls : lexemes source with
  | error fault =>
    refine ⟨fault, ?_⟩
    unfold read
    rw [hls]
    rfl
  | ok ls =>
    have hall : lexemesFrom 0 (front ++ ' ' :: back) = .ok ls := hcut ▸ hls
    obtain ⟨first, more, _, hmore, rfl⟩ :=
      exists_of_lexemesFrom_append List.mem_cons_self hfront hall
    rw [lexemesFrom_cons, if_pos (by decide)] at hmore
    obtain ⟨l, hl, hword⟩ := exists_lexeme_of_word (by decide) (by decide) (by decide) hmore
    exact exists_error_of_word hls (List.mem_append_right first hl) hword not_known_of_head

end Runbook.Guard
