import Runbook.Proofs.Guard.Derivation

/-!
# Where the text of a guard can be cut

Inside a text literal every character counts, and outside of one a blank, a comma, a bracket or a
quote ends the token before it.  So a text is cut into tokens piece by piece: what stands before such
a character, if no literal is open there, and then the rest (`lexemesFrom_append`).  Whether a literal
is open is found by looking at quotes and backslashes alone (`openQuote`).
-/

namespace Runbook.Text

/-- Beyond ASCII, a character is alphabetic if a range of the table has it. -/
theorem isAlphabetic_of_mem {c : Char} {range : Nat × Nat} (hc : ¬ c.val < 128)
    (hrange : range ∈ alphabeticRanges.toList) (hleast : range.1 ≤ c.toNat)
    (hgreatest : c.toNat ≤ range.2) : isAlphabetic c = true := by
  rw [isAlphabetic, if_neg hc, inRanges, Array.any_eq_true']
  exact ⟨range, Array.mem_toList_iff.mp hrange, by simp [hleast, hgreatest]⟩

end Runbook.Text

namespace Runbook.Guard

/-! ## Text literals that are open -/

/-- The character begins a text literal. -/
def isQuote (c : Char) : Bool :=
  c == '\'' || c == '"'

theorem isQuote_iff {c : Char} : isQuote c = true ↔ c = '\'' ∨ c = '"' := by
  rw [isQuote, Bool.or_eq_true, beq_iff_eq, beq_iff_eq]

/-- The quote that a text literal, open after these characters, waits for; `quote` is the one that is
waited for before them.  In a literal, the character after a backslash ends nothing. -/
def openQuote : (quote : Option Char) → List Char → Option Char
  | quote, [] => quote
  | none, c :: rest => openQuote (if isQuote c then some c else none) rest
  | some q, '\\' :: _ :: rest => openQuote (some q) rest
  | some q, c :: rest => openQuote (if c = q then none else some q) rest

/-- **No text literal is left open** by these characters. -/
def Closed (cs : List Char) : Prop :=
  openQuote none cs = none

instance (cs : List Char) : Decidable (Closed cs) :=
  inferInstanceAs (Decidable (_ = _))

theorem openQuote_of_not_isQuote {c : Char} (h : isQuote c = false) (rest : List Char) :
    openQuote none (c :: rest) = openQuote none rest := by
  rw [openQuote, h]
  rfl

theorem openQuote_append_of_not_isQuote {front : List Char} (h : ∀ c ∈ front, isQuote c = false)
    (back : List Char) : openQuote none (front ++ back) = openQuote none back := by
  induction front with
  | nil => rfl
  | cons c rest ih =>
    obtain ⟨hc, hrest⟩ := List.forall_mem_cons.mp h
    rw [List.cons_append, openQuote_of_not_isQuote hc, ih hrest]

theorem openQuote_of_isQuote {c : Char} (h : isQuote c = true) (rest : List Char) :
    openQuote none (c :: rest) = openQuote (some c) rest := by
  rw [openQuote, h]
  rfl

theorem openQuote_of_ne_backslash {c : Char} (h : c ≠ '\\') (q : Char) (rest : List Char) :
    openQuote (some q) (c :: rest) = openQuote (if c = q then none else some q) rest := by
  rw [openQuote.eq_def]
  split <;> simp_all

/-- Where nothing is open, what follows decides what is open after it. -/
theorem openQuote_append {quote : Option Char} (hq : quote ≠ some '\\') {front : List Char}
    (h : openQuote quote front = none) (back : List Char) :
    openQuote quote (front ++ back) = openQuote none back := by
  fun_induction openQuote quote front with
  | case1 quote => rw [h]; rfl
  | case2 c rest ih =>
    rw [List.cons_append, openQuote]
    refine ih ?_ h
    split
    · rename_i hc
      rintro ⟨rfl⟩
      cases hc
    · exact nofun
  | case3 q c rest ih =>
    rw [List.cons_append, List.cons_append, openQuote]
    exact ih hq h
  | case4 q c rest hpair ih =>
    by_cases hback : c = '\\'
    · -- A backslash at the end: the literal is still open.
      subst hback
      cases rest with
      | nil => simp [openQuote, Ne.symm (fun h => hq (congrArg some h))] at h
      | cons d rest => exact absurd rfl (hpair d rest rfl)
    · rw [List.cons_append, openQuote_of_ne_backslash hback]
      refine ih ?_ h
      split
      · exact nofun
      · exact hq

theorem Closed.append {front : List Char} (h : Closed front) {back : List Char}
    (hback : Closed back) : Closed (front ++ back) := by
  unfold Closed at h ⊢
  rw [openQuote_append (Option.some_ne_none _).symm h]
  exact hback

/-- After a text literal, nothing is open. -/
theorem openQuote_of_textBody {q : Char} {cs content taken tail : List Char}
    (h : textBody q cs = some (content, taken, tail)) :
    openQuote (some q) cs = openQuote none tail := by
  fun_induction textBody q cs generalizing content taken tail with
  | case1 => cases h
  | case2 c rest ih =>
    obtain ⟨⟨x, y, z⟩, hx, he⟩ := Option.map_eq_some_iff.1 h
    cases he
    rw [openQuote, ih hx]
  | case3 => cases h
  | case4 rest hpair hback =>
    cases h
    rw [openQuote_of_ne_backslash hback, if_pos rfl]
  | case5 c rest hpair hback hquote ih =>
    obtain ⟨⟨x, y, z⟩, hx, he⟩ := Option.map_eq_some_iff.1 h
    cases he
    rw [openQuote_of_ne_backslash hback, if_neg hquote, ih hx]

theorem textBody_of_ne_backslash {c : Char} (h : c ≠ '\\') (q : Char) (rest : List Char) :
    textBody q (c :: rest) =
      if c = q then some ([], [c], rest)
      else (textBody q rest).map fun (content, taken, tail) => (c :: content, c :: taken, tail) := by
  rw [textBody.eq_def]
  split <;> simp_all

/-- A text literal that is not left open ends at its quote. -/
theorem exists_textBody {q : Char} (hq : q ≠ '\\') {cs : List Char}
    (h : openQuote (some q) cs = none) : ∃ body, textBody q cs = some body := by
  fun_induction textBody q cs with
  | case1 => cases h
  | case2 c rest ih =>
    rw [openQuote] at h
    obtain ⟨body, hbody⟩ := ih h
    rw [hbody]
    exact ⟨_, rfl⟩
  | case3 rest hpair =>
    cases rest with
    | nil => simp [openQuote, hq.symm] at h
    | cons c rest => exact absurd rfl (hpair c rest rfl)
  | case4 => exact ⟨_, rfl⟩
  | case5 c rest hpair hback hquote ih =>
    rw [openQuote_of_ne_backslash hback, if_neg hquote] at h
    obtain ⟨body, hbody⟩ := ih h
    rw [hbody]
    exact ⟨_, rfl⟩

/-- A text literal ends where it does, whatever follows the text. -/
theorem textBody_append {quote : Char} {cs content taken tail : List Char}
    (h : textBody quote cs = some (content, taken, tail)) (back : List Char) :
    textBody quote (cs ++ back) = some (content, taken, tail ++ back) := by
  fun_induction textBody quote cs generalizing content taken tail with
  | case1 => cases h
  | case2 c rest ih =>
    obtain ⟨⟨x, y, z⟩, hx, he⟩ := Option.map_eq_some_iff.1 h
    cases he
    rw [List.cons_append, List.cons_append, textBody, ih hx]
    rfl
  | case3 => cases h
  | case4 rest hpair hback =>
    cases h
    rw [List.cons_append, textBody_of_ne_backslash hback, if_pos rfl]
  | case5 c rest hpair hback hquote ih =>
    obtain ⟨⟨x, y, z⟩, hx, he⟩ := Option.map_eq_some_iff.1 h
    cases he
    rw [List.cons_append, textBody_of_ne_backslash hback, if_neg hquote, ih hx]
    rfl

/-! ## Where words and numbers end -/

section Spans
variable {back : List Char}

/-- The character may belong to a number, wherever it stands in it. -/
def isNumberChar (c : Char) : Bool :=
  c.isDigit || c == '.' || c == 'e' || c == 'E'

/-- An exponent mark stands last; without characters, `afterMark` tells. -/
def endsInMark (afterMark : Bool) : List Char → Bool
  | [] => afterMark
  | c :: rest => endsInMark (c == 'e' || c == 'E') rest

theorem endsInMark_of_getLast? (afterMark : Bool) {cs : List Char} {d : Char}
    (h : cs.getLast? = some d) : endsInMark afterMark cs = (d == 'e' || d == 'E') := by
  induction cs generalizing afterMark with
  | nil => cases h
  | cons c rest ih =>
    cases rest with
    | nil =>
      cases h
      rfl
    | cons e more =>
      rw [List.getLast?_cons_cons] at h
      exact ih (c == 'e' || c == 'E') h

/-- A span ends where the text behind it begins, unless that goes on with a character of numbers, or
with a sign after an exponent mark. -/
theorem numberSpan_append {afterMark : Bool} {cs : List Char}
    (h : (numberSpan afterMark cs).2 ≠ [] ∨ ∀ c ∈ back.head?,
      (isNumberChar c || (endsInMark afterMark cs && (c == '+' || c == '-'))) = false) :
    numberSpan afterMark (cs ++ back) =
      ((numberSpan afterMark cs).1, (numberSpan afterMark cs).2 ++ back) := by
  induction cs generalizing afterMark with
  | nil =>
    rcases h with hne | hstop
    · exact absurd rfl hne
    · cases back with
      | nil => rfl
      | cons c tail =>
        show numberSpan afterMark (c :: tail) = ([], c :: tail)
        rw [numberSpan]
        exact if_neg (Bool.eq_false_iff.mp (hstop c rfl))
  | cons c rest ih =>
    by_cases hc : (c.isDigit || c == '.' || c == 'e' || c == 'E' ||
        (afterMark && (c == '+' || c == '-'))) = true
    · rw [numberSpan, if_pos hc] at h
      rw [List.cons_append, numberSpan, numberSpan, if_pos hc, if_pos hc, ih h]
    · rw [List.cons_append, numberSpan, numberSpan, if_neg hc, if_neg hc]
      rfl

theorem takeWhile_append_of_stops {p : Char → Bool} {cs : List Char}
    (h : cs.dropWhile p ≠ [] ∨ ∀ c ∈ back.head?, p c = false) :
    (cs ++ back).takeWhile p = cs.takeWhile p := by
  induction cs with
  | nil =>
    rcases h with hne | hstop
    · exact absurd rfl hne
    · cases back with
      | nil => rfl
      | cons c tail => exact List.takeWhile_cons_of_neg (by simp [hstop c rfl])
  | cons c rest ih =>
    by_cases hc : p c = true
    · rw [List.dropWhile_cons_of_pos hc] at h
      rw [List.cons_append, List.takeWhile_cons_of_pos hc, List.takeWhile_cons_of_pos hc, ih h]
    · rw [List.cons_append, List.takeWhile_cons_of_neg hc, List.takeWhile_cons_of_neg hc]

theorem dropWhile_append_of_stops {p : Char → Bool} {cs : List Char}
    (h : cs.dropWhile p ≠ [] ∨ ∀ c ∈ back.head?, p c = false) :
    (cs ++ back).dropWhile p = cs.dropWhile p ++ back := by
  have hsplit := List.takeWhile_append_dropWhile (p := p) (l := cs ++ back)
  rw [takeWhile_append_of_stops h] at hsplit
  refine List.append_cancel_left (hsplit.trans ?_)
  rw [← List.append_assoc, List.takeWhile_append_dropWhile]

end Spans

/-! ## Characters that end a token -/

/-- Characters before which a token ends, whatever it is: the space, the comma, brackets and
quotes. -/
def delimiters : List Char :=
  [' ', ',', '(', ')', '[', ']', '\x7b', '\x7d', '\'', '"']

/-- The text ends, or begins with a delimiter. -/
def Delimited : List Char → Prop
  | [] => True
  | c :: _ => c ∈ delimiters

section Delimited
variable {back : List Char}

theorem not_isWordChar_of_mem_delimiters {c : Char} (h : c ∈ delimiters) :
    Text.isWordChar c = false := by
  have hall : delimiters.all (!Text.isWordChar ·) = true := by decide
  simpa using List.all_eq_true.mp hall c h

/-- No delimiter goes on with a number. -/
theorem not_number_of_mem_delimiters {c : Char} (h : c ∈ delimiters) (afterMark : Bool) :
    (isNumberChar c || (afterMark && (c == '+' || c == '-'))) = false := by
  have hall : delimiters.all (fun c => !(isNumberChar c || (c == '+' || c == '-'))) = true := by
    decide
  have hc : !(isNumberChar c || (c == '+' || c == '-')) := List.all_eq_true.mp hall c h
  rw [Bool.not_eq_true', Bool.or_eq_false_iff] at hc
  rw [hc.1, hc.2, Bool.and_false]
  rfl

theorem Delimited.mem_of_head? (hd : Delimited back) : ∀ c ∈ back.head?, c ∈ delimiters := by
  cases back with
  | nil => exact nofun
  | cons d tail =>
    intro c hc
    cases hc
    exact hd

theorem startsWithDigit_append (hd : Delimited back) (rest : List Char) :
    startsWithDigit (rest ++ back) = startsWithDigit rest := by
  cases rest with
  | cons c rest => rfl
  | nil =>
    cases back with
    | nil => rfl
    | cons d tail =>
      have hnot := not_number_of_mem_delimiters hd false
      simp_all [startsWithDigit, isNumberChar]

end Delimited

namespace Piece

/-- The same piece of a longer text. -/
def followedBy (p : Piece) (back : List Char) : Piece :=
  ⟨p.outcome, p.taken, p.rest ++ back⟩

section Append
variable {back : List Char}

theorem oneOrTwo_append (hd : Delimited back) (long : Token) (short : Except Fault Token)
    (c : Char) {d : Char} (h : d ∉ delimiters) (rest : List Char) :
    oneOrTwo long short c d (rest ++ back) = (oneOrTwo long short c d rest).followedBy back := by
  cases rest with
  | cons e tail =>
    unfold oneOrTwo
    dsimp only [List.cons_append]
    split <;> rfl
  | nil =>
    cases back with
    | nil => rfl
    | cons e tail =>
      have hne : e ≠ d := fun he => h (he ▸ hd)
      exact if_neg hne

theorem number_append (hd : Delimited back) (c : Char) (rest : List Char) :
    number c (rest ++ back) = (number c rest).followedBy back := by
  unfold number
  rw [numberSpan_append (.inr fun d h => not_number_of_mem_delimiters (hd.mem_of_head? d h) _)]
  dsimp only
  split <;> rfl

theorem word_append {c : Char} {rest : List Char}
    (h : (word c rest).rest ≠ [] ∨ ∀ d ∈ back.head?, Text.isWordChar d = false) :
    word c (rest ++ back) = (word c rest).followedBy back := by
  have hdrop : rest.dropWhile Text.isWordChar ≠ [] ∨ ∀ d ∈ back.head?, Text.isWordChar d = false := h
  unfold word
  rw [takeWhile_append_of_stops hdrop, dropWhile_append_of_stops hdrop]
  rfl

theorem text_append {quote : Char} {rest : List Char} {body : List Char × List Char × List Char}
    (h : textBody quote rest = some body) (back : List Char) :
    text quote (rest ++ back) = (text quote rest).followedBy back := by
  unfold text
  rw [textBody_append h, h]
  simp [followedBy]

theorem exists_body_of_closed {quote : Char} (hq : isQuote quote = true) {rest : List Char}
    (h : Closed (quote :: rest)) : ∃ body, textBody quote rest = some body := by
  refine exists_textBody ?_ ((openQuote_of_isQuote hq rest).symm.trans h)
  rintro rfl
  cases hq

theorem next_append (hd : Delimited back) {c : Char} {rest : List Char}
    (h : Closed (c :: rest)) : next c (rest ++ back) = (next c rest).followedBy back := by
  unfold next
  dsimp only
  split
  · exact oneOrTwo_append hd _ _ _ (by decide) rest
  · exact oneOrTwo_append hd _ _ _ (by decide) rest
  · exact oneOrTwo_append hd _ _ _ (by decide) rest
  · exact oneOrTwo_append hd _ _ _ (by decide) rest
  · exact oneOrTwo_append hd _ _ _ (by decide) rest
  · exact oneOrTwo_append hd _ _ _ (by decide) rest
  · rfl
  · rfl
  · rfl
  · rfl
  · rfl
  · rfl
  · rfl
  · rfl
  · obtain ⟨body, hbody⟩ := exists_body_of_closed rfl h
    exact text_append hbody back
  · obtain ⟨body, hbody⟩ := exists_body_of_closed rfl h
    exact text_append hbody back
  · rw [startsWithDigit_append hd]
    split
    · exact number_append hd c rest
    · split
      · exact word_append (.inr fun d h => not_isWordChar_of_mem_delimiters (hd.mem_of_head? d h))
      · rfl

end Append

/-! ## What a piece leaves open -/

theorem not_isQuote_of_isWordChar {c : Char} (h : Text.isWordChar c = true) : isQuote c = false := by
  refine Bool.eq_false_iff.2 fun hc => ?_
  obtain rfl | rfl := isQuote_iff.mp hc <;> cases h

theorem not_isQuote_of_mem_numberSpan (afterMark : Bool) (rest : List Char) :
    ∀ c ∈ (numberSpan afterMark rest).1, isQuote c = false := by
  induction rest generalizing afterMark with
  | nil => exact nofun
  | cons c rest ih =>
    rw [numberSpan]
    split
    · rename_i hc
      refine List.forall_mem_cons.mpr ⟨Bool.eq_false_iff.2 fun hquote => ?_, ih _⟩
      obtain rfl | rfl := isQuote_iff.mp hquote <;> simp at hc
    · exact nofun

/-- What is open after a text is open after the rest of it, once a token is cut off. -/
def Leaves (p : Piece) (c : Char) (rest : List Char) : Prop :=
  openQuote none (c :: rest) = openQuote none p.rest

theorem leaves_of_not_isQuote {p : Piece} {c : Char} {rest : List Char} (h : p.Divides c rest)
    (htaken : ∀ d ∈ p.taken, isQuote d = false) : p.Leaves c rest := by
  unfold Leaves
  rw [← h.1, openQuote_append_of_not_isQuote htaken]

theorem leaves_oneOrTwo (long : Token) (short : Except Fault Token) {c d : Char}
    (hc : isQuote c = false) (hd : isQuote d = false) (rest : List Char) :
    (oneOrTwo long short c d rest).Leaves c rest := by
  refine leaves_of_not_isQuote (divides_oneOrTwo ..) ?_
  unfold oneOrTwo
  split
  · split
    · rename_i he
      simp [hc, he, hd]
    · simp [hc]
  · simp [hc]

theorem leaves_one (token : Token) {c : Char} (hc : isQuote c = false) (rest : List Char) :
    (one token c rest).Leaves c rest :=
  leaves_of_not_isQuote (divides_one ..) (List.forall_mem_singleton.mpr hc)

theorem leaves_number {c : Char} (hc : isQuote c = false) (rest : List Char) :
    (number c rest).Leaves c rest := by
  refine leaves_of_not_isQuote (divides_number ..) ?_
  have htaken := not_isQuote_of_mem_numberSpan false rest
  unfold number
  dsimp only
  split <;> exact List.forall_mem_cons.mpr ⟨hc, htaken⟩

theorem leaves_word {c : Char} (hc : isQuote c = false) (rest : List Char) :
    (word c rest).Leaves c rest := by
  refine leaves_of_not_isQuote (divides_word ..) (List.forall_mem_cons.mpr ⟨hc, fun d hd => ?_⟩)
  exact not_isQuote_of_isWordChar (List.all_eq_true.mp List.all_takeWhile d hd)

theorem leaves_text {quote : Char} (hq : isQuote quote = true) {rest : List Char} {token : Token}
    (h : (text quote rest).outcome = .ok token) : (text quote rest).Leaves quote rest := by
  unfold Leaves
  rw [openQuote_of_isQuote hq]
  unfold text at h ⊢
  split
  · rename_i hbody
    exact openQuote_of_textBody hbody
  · rename_i hbody
    rw [hbody] at h
    cases h

/-- **A token leaves open what the text leaves open.** -/
theorem leaves_next {c : Char} {rest : List Char} {token : Token}
    (h : (next c rest).outcome = .ok token) : (next c rest).Leaves c rest := by
  unfold next at h ⊢
  dsimp only at h ⊢
  split at h <;> first
    | exact leaves_oneOrTwo _ _ rfl rfl rest
    | exact leaves_one _ rfl rest
    | exact leaves_text rfl h
    | skip
  rename_i hsingle hdouble
  have hc : isQuote c = false := by
    rw [isQuote, Bool.or_eq_false_iff]
    exact ⟨beq_false_of_ne hsingle, beq_false_of_ne hdouble⟩
  split at h
  · rename_i hnumber
    rw [if_pos hnumber]
    exact leaves_number hc rest
  · rename_i hnumber
    rw [if_neg hnumber]
    split at h
    · rename_i hword
      rw [if_pos hword]
      exact leaves_word hc rest
    · cases h

end Piece

/-! ## All tokens -/

theorem lexemesFrom_nil (offset : Nat) : lexemesFrom offset [] = .ok [] :=
  lexemesFrom.eq_def offset []

theorem lexemesFrom_cons (offset : Nat) (c : Char) (rest : List Char) :
    lexemesFrom offset (c :: rest) =
      if Text.isBlank c then lexemesFrom (offset + c.utf8Size) rest
      else
        match (Piece.next c rest).outcome with
        | .error fault => .error ⟨offset, fault⟩
        | .ok token => do
          let more ← lexemesFrom (offset + byteLength (Piece.next c rest).taken)
            (Piece.next c rest).rest
          return ⟨offset, token⟩ :: more :=
  lexemesFrom.eq_def offset (c :: rest)

theorem byteLength_append (front back : List Char) :
    byteLength (front ++ back) = byteLength front + byteLength back := by
  induction front with
  | nil => exact (Nat.zero_add _).symm
  | cons c rest ih => simp [byteLength, ih, Nat.add_assoc]

theorem not_isQuote_of_isBlank {c : Char} (h : Text.isBlank c = true) : isQuote c = false := by
  refine Bool.eq_false_iff.2 fun hc => ?_
  obtain rfl | rfl := isQuote_iff.mp hc <;> cases h

/-- Nothing is open after a text that can be cut into tokens. -/
theorem closed_of_lexemesFrom {offset : Nat} {cs : List Char} {ls : List Lexeme}
    (h : lexemesFrom offset cs = .ok ls) : Closed cs := by
  fun_induction lexemesFrom offset cs generalizing ls with
  | case1 => rfl
  | case2 offset c rest hc ih =>
    exact (openQuote_of_not_isQuote (not_isQuote_of_isBlank hc) rest).trans (ih h)
  | case3 => cases h
  | case4 offset c rest hc piece token hp =>
    rename_i ih
    cases hrest : lexemesFrom (offset + byteLength piece.taken) piece.rest with
    | error e => rw [hrest] at h; cases h
    | ok more => exact (Piece.leaves_next hp).trans (ih hrest)

/-- **A text is cut before a delimiter**, if nothing is open there: into the tokens before it and
those of the rest. -/
theorem lexemesFrom_append {back : List Char} (hd : Delimited back) (offset : Nat)
    {front : List Char} (h : Closed front) :
    lexemesFrom offset (front ++ back) = do
      let first ← lexemesFrom offset front
      let more ← lexemesFrom (offset + byteLength front) back
      return first ++ more := by
  fun_induction lexemesFrom offset front with
  | case1 offset =>
    show lexemesFrom offset back = (lexemesFrom offset back >>= fun more => .ok more)
    cases lexemesFrom offset back <;> rfl
  | case2 offset c rest hc ih =>
    have hrest : Closed rest :=
      (openQuote_of_not_isQuote (not_isQuote_of_isBlank hc) rest).symm.trans h
    rw [List.cons_append, lexemesFrom_cons, if_pos hc, ih hrest, byteLength, Nat.add_assoc]
  | case3 offset c rest hc piece fault hp =>
    rw [List.cons_append, lexemesFrom_cons, if_neg hc, Piece.next_append hd h]
    dsimp only [Piece.followedBy]
    rw [hp]
    rfl
  | case4 offset c rest hc piece token hp ih =>
    have hrest : Closed piece.rest := (Piece.leaves_next hp).symm.trans h
    have hlength : byteLength (c :: rest) = byteLength piece.taken + byteLength piece.rest := by
      rw [← Piece.taken_append_rest c rest, byteLength_append]
    rw [List.cons_append, lexemesFrom_cons, if_neg hc, Piece.next_append hd h]
    dsimp only [Piece.followedBy]
    rw [hp]
    dsimp only
    rw [ih hrest, hlength, Nat.add_assoc]
    cases lexemesFrom (offset + byteLength piece.taken) piece.rest with
    | error e => rfl
    | ok first =>
      show (lexemesFrom _ back >>= fun more => .ok (first ++ more)) >>= _ = _
      cases lexemesFrom (offset + (byteLength piece.taken + byteLength piece.rest)) back <;> rfl

/-- What is cut before a delimiter is cut on both sides of it. -/
theorem exists_of_lexemesFrom_append {back : List Char} (hd : Delimited back) {offset : Nat}
    {front : List Char} (h : Closed front) {ls : List Lexeme}
    (hls : lexemesFrom offset (front ++ back) = .ok ls) :
    ∃ first more, lexemesFrom offset front = .ok first ∧
      lexemesFrom (offset + byteLength front) back = .ok more ∧ ls = first ++ more := by
  rw [lexemesFrom_append hd offset h] at hls
  cases hfirst : lexemesFrom offset front with
  | error fault => rw [hfirst] at hls; cases hls
  | ok first =>
    cases hmore : lexemesFrom (offset + byteLength front) back with
    | error fault => rw [hfirst, hmore] at hls; cases hls
    | ok more =>
      rw [hfirst, hmore] at hls
      exact ⟨first, more, rfl, rfl, (Except.ok.inj hls).symm⟩

/-- What succeeds with a value returns it. -/
theorem eq_ok_of_toOption {ε α : Type} {outcome : Except ε α} {value : α}
    (h : outcome.toOption = some value) : outcome = .ok value := by
  cases outcome with
  | error fault => cases h
  | ok found => rw [Option.some.inj h]

/-! ## Texts and their tokens -/

/-- **The text is cut into these tokens**, wherever it stands. -/
def Cut (cs : List Char) (tokens : List Token) : Prop :=
  ∀ offset, ∃ ls, lexemesFrom offset cs = .ok ls ∧ ls.map Lexeme.token = tokens

namespace Cut
variable {cs front back : List Char} {tokens : List Token}

theorem closed (h : Cut cs tokens) : Closed cs :=
  have ⟨_, hls, _⟩ := h 0
  closed_of_lexemesFrom hls

theorem nil : Cut [] [] :=
  fun offset => ⟨[], lexemesFrom_nil offset, rfl⟩

theorem append {more : List Token} (hfront : Cut front tokens) (hback : Cut back more)
    (hd : Delimited back) : Cut (front ++ back) (tokens ++ more) := by
  intro offset
  obtain ⟨first, hfirst, rfl⟩ := hfront offset
  obtain ⟨second, hsecond, rfl⟩ := hback (offset + byteLength front)
  refine ⟨first ++ second, ?_, List.map_append⟩
  rw [lexemesFrom_append hd offset hfront.closed, hfirst]
  show (lexemesFrom _ back >>= fun more => .ok (first ++ more)) = _
  rw [hsecond]
  rfl

/-- A blank before a text is no token. -/
theorem blank {c : Char} (hc : Text.isBlank c = true) (h : Cut cs tokens) :
    Cut (c :: cs) tokens := by
  intro offset
  rw [lexemesFrom_cons, if_pos hc]
  exact h _

/-- A token of one character, whatever follows. -/
theorem cons {c : Char} {token : Token} (hc : Text.isBlank c = false)
    (hnext : Piece.next c cs = .one token c cs) (h : Cut cs tokens) :
    Cut (c :: cs) (token :: tokens) := by
  intro offset
  obtain ⟨ls, hls, rfl⟩ := h (offset + byteLength [c])
  rw [lexemesFrom_cons, if_neg (Bool.eq_false_iff.1 hc), hnext]
  refine ⟨⟨offset, token⟩ :: ls, ?_, rfl⟩
  show (lexemesFrom (offset + byteLength [c]) cs >>= fun more => .ok (_ :: more)) = _
  rw [hls]
  rfl

/-- A text that is one token. -/
theorem one {c : Char} {rest taken : List Char} {token : Token} (hc : Text.isBlank c = false)
    (hnext : Piece.next c rest = ⟨.ok token, taken, []⟩) : Cut (c :: rest) [token] := by
  intro offset
  rw [lexemesFrom_cons, if_neg (Bool.eq_false_iff.1 hc), hnext]
  dsimp only
  rw [lexemesFrom_nil]
  exact ⟨[⟨offset, token⟩], rfl, rfl⟩

theorem next_of_isWordStart {c : Char} (hc : Text.isWordStart c = true)
    (hdigit : c.isDigit = false) (rest : List Char) : Piece.next c rest = .word c rest := by
  unfold Piece.next
  split <;> first | (exfalso; revert hc; decide) | skip
  have hpoint : c ≠ '.' := by
    rintro rfl
    exact absurd hc (by decide)
  rw [if_neg (by simp [hdigit, hpoint]), if_pos hc]

/-- A text that is one word. -/
theorem word {c : Char} {rest : List Char} (hblank : Text.isBlank c = false)
    (hdigit : c.isDigit = false) (hc : Text.isWordStart c = true)
    (hrest : ∀ d ∈ rest, Text.isWordChar d = true) :
    Cut (c :: rest) [.word (String.ofList (c :: rest))] := by
  have htake : (rest ++ []).takeWhile Text.isWordChar = rest ++ [] :=
    List.takeWhile_append_of_pos hrest
  have hdrop : (rest ++ []).dropWhile Text.isWordChar = [] := List.dropWhile_append_of_pos hrest
  rw [List.append_nil] at htake hdrop
  have hnext : Piece.next c rest = ⟨.ok (.word (String.ofList (c :: rest))), c :: rest, []⟩ := by
    rw [next_of_isWordStart hc hdigit, Piece.word, htake, hdrop]
  exact .one hblank hnext

/-- The sign of the subset relation. -/
theorem subsetSign : Cut "属于".toList [.word "属于"] := by
  have hrange : (0x4e00, 0xa48c) ∈ Text.alphabeticRanges.toList := by decide +kernel
  have hfirst : Text.isAlphabetic '属' = true :=
    Text.isAlphabetic_of_mem (by decide) hrange (by decide) (by decide)
  have hsecond : Text.isAlphabetic '于' = true :=
    Text.isAlphabetic_of_mem (by decide) hrange (by decide) (by decide)
  show Cut ('属' :: ['于']) [.word (String.ofList ('属' :: ['于']))]
  refine word (by decide +kernel) (by decide) ?_ ?_
  · rw [Text.isWordStart, hfirst]
    rfl
  · simp [Text.isWordChar, hsecond]

end Cut

/-- **A guard whose lexemes are derived denotes** what the derivation does. -/
theorem read_of_lexemes {source : String} {ls : List Lexeme} {d : Grammar.Disjunction}
    (hls : lexemes source = .ok ls) (htokens : d.tokens = ls.map Lexeme.token)
    (hn : d.nesting ≤ maxNesting) : read source = .ok d.denoted := by
  have hne : ls ≠ [] := by
    rintro rfl
    obtain ⟨token, rest, hd, _⟩ := begin_disjunction d
    rw [hd] at htokens
    cases htokens
  unfold read
  rw [hls]
  exact (ofLexemes_eq_ok_iff (written_of_lexemesFrom 0 _ hls) _).mpr ⟨hne, d, htokens, hn, rfl⟩

/-- **A guard whose tokens are derived denotes** what the derivation does. -/
theorem read_of_cut {source : String} {d : Grammar.Disjunction}
    (h : Cut source.toList d.tokens) (hn : d.nesting ≤ maxNesting) :
    read source = .ok d.denoted := by
  obtain ⟨ls, hls, htokens⟩ := h 0
  exact read_of_lexemes hls htokens.symm hn

/-- **What a guard denotes is derived** from its tokens. -/
theorem exists_derivation_of_read {source : String} {e : Expression} (h : read source = .ok e) :
    ∃ (ls : List Lexeme) (d : Grammar.Disjunction), lexemes source = .ok ls ∧
      d.tokens = ls.map Lexeme.token ∧ d.nesting ≤ maxNesting ∧ d.denoted = e := by
  unfold read at h
  cases hls : lexemes source with
  | error fault => rw [hls] at h; cases h
  | ok ls =>
    rw [hls] at h
    obtain ⟨_, d, hd⟩ := (ofLexemes_eq_ok_iff (written_of_lexemesFrom 0 _ hls) e).mp h
    exact ⟨ls, d, rfl, hd⟩

/-! ## Two operands and an operator -/

/-- Two operands with an operator between them. -/
def Grammar.Operator.between (left : Grammar.Signed) (operator : Grammar.Operator)
    (right : Grammar.Signed) : Grammar.Disjunction :=
  .one (.one (.chain (.mk left (.more operator right .none))))

/-- **Operands with an operator between them, after blanks, denote its comparison.** -/
theorem read_between {source : String} (left right : Grammar.Signed) {operator : Grammar.Operator}
    {front sign back : List Char} (hleft : Cut front left.tokens) (hsign : Cut sign operator.tokens)
    (hright : Cut back right.tokens) (hln : left.nesting ≤ maxNesting)
    (hrn : right.nesting ≤ maxNesting)
    (hsource : source.toList = front ++ ' ' :: (sign ++ ' ' :: back)) :
    read source = .ok (operator.denoted left.denoted right.denoted) := by
  have hblank : ' ' ∈ delimiters := List.mem_cons_self
  have hback : Cut (sign ++ ' ' :: back) (operator.tokens ++ right.tokens) :=
    hsign.append (hright.blank rfl) hblank
  have hcut : Cut source.toList (operator.between left right).tokens := by
    rw [hsource]
    show Cut _ (left.tokens ++ (operator.tokens ++ right.tokens ++ []))
    rw [List.append_nil]
    exact hleft.append (hback.blank rfl) hblank
  have hnesting : (operator.between left right).nesting ≤ maxNesting :=
    Nat.max_le.mpr ⟨hln, Nat.max_le.mpr ⟨hrn, Nat.zero_le _⟩⟩
  exact read_of_cut hcut hnesting

/-! ## Whether a guard holds -/

theorem withoutBreaks_append (s t : String) :
    withoutBreaks (s ++ t) = withoutBreaks s ++ withoutBreaks t := by
  simp [withoutBreaks]

/-- **The text is one line.** -/
def IsLine (s : String) : Prop :=
  ∀ c ∈ s.toList, c ≠ '\n' ∧ c ≠ '\r'

instance (s : String) : Decidable (IsLine s) :=
  List.decidableBAll _ s.toList

theorem withoutBreaks_eq_self {s : String} (h : IsLine s) : withoutBreaks s = s := by
  have hkept : s.toList.filter (fun c => c != '\n' && c != '\r') = s.toList :=
    List.filter_eq_self.mpr fun c hc => by simp [h c hc]
  rw [withoutBreaks, hkept, String.ofList_toList]

theorem holds_iff {source : String} {e : Expression} (h : read (withoutBreaks source) = .ok e) :
    holds source = true ↔ ∃ v, e.evaluate = .ok v ∧ v.truthy = true := by
  unfold holds
  rw [h]
  dsimp only
  cases e.evaluate with
  | error fault => simp
  | ok v => simp

end Runbook.Guard
