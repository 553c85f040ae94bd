import Runbook.Proofs.Guard.Cut

/-!
# Where one token of a guard ends and the next begins

A token ends where the next character does not go on with it: a word goes on with the characters of
words, a number with digits, points and exponent marks, and the signs `<`, `>` and `!` with an equals
sign (`Token.goesOn`).  A text that is cut into tokens is settled up to its last one: what follows
can only change the token that reaches its end (`exists_ending`), and does not if it does not go on
with that token (`cut_append_iff`).
-/

namespace Runbook.Text

/-- The ranges of code points of the blank characters beyond ASCII. -/
def wideBlanks : List (Nat × Nat) :=
  [(0x85, 0x85), (0xA0, 0xA0), (0x1680, 0x1680), (0x2000, 0x200A), (0x2028, 0x2029),
    (0x202F, 0x202F), (0x205F, 0x205F), (0x3000, 0x3000)]

/-- No range of the table meets the range. -/
def misses (table : Array (Nat × Nat)) (range : Nat × Nat) : Bool :=
  table.toList.all fun r => Nat.blt r.2 range.1 || Nat.blt range.2 r.1

theorem inRanges_eq_false {table : Array (Nat × Nat)} {range : Nat × Nat}
    (h : misses table range = true) {n : Nat} (hleast : range.1 ≤ n) (hgreatest : n ≤ range.2) :
    inRanges table n = false := by
  rw [inRanges, Array.any_eq_false']
  intro r hr
  have hmiss := List.all_eq_true.mp h r (Array.mem_toList_iff.mpr hr)
  simp only [Bool.or_eq_true, Nat.blt_eq] at hmiss
  simp only [Bool.and_eq_true, decide_eq_true_eq]
  omega

theorem code_of_isBlank {c : Char} (h : isBlank c = true) :
    c.toNat ∈ [0x09, 0x0A, 0x0B, 0x0C, 0x0D, 0x20] ∨
      ¬ c.toNat < 128 ∧ ∃ range ∈ wideBlanks, range.1 ≤ c.toNat ∧ c.toNat ≤ range.2 := by
  simp only [isBlank, Bool.or_eq_true, Bool.and_eq_true, decide_eq_true_eq, beq_iff_eq] at h
  simp only [wideBlanks, List.mem_cons, List.not_mem_nil, or_false, exists_eq_or_imp,
    exists_eq_left]
  omega

/-- **A blank character stands in no word.** -/
theorem not_isWordChar_of_isBlank {c : Char} (h : isBlank c = true) : isWordChar c = false := by
  rcases code_of_isBlank h with hcode | ⟨hwide, range, hrange, hleast, hgreatest⟩
  · have hall : ∀ n ∈ [0x09, 0x0A, 0x0B, 0x0C, 0x0D, 0x20], isWordChar (Char.ofNat n) = false := by
      decide
    have hc := hall c.toNat hcode
    rwa [Char.ofNat_toNat] at hc
  · have halphabetic : ∀ range ∈ wideBlanks, misses alphabeticRanges range = true := by
      decide +kernel
    have hnumeric : ∀ range ∈ wideBlanks, misses numericRanges range = true := by
      decide +kernel
    have hascii : ¬ c.val < 128 := fun hlt => hwide (UInt32.lt_iff_toNat_lt.mp hlt)
    have hunderscore : (c == '_') = false := by
      refine beq_false_of_ne ?_
      rintro rfl
      cases h
    rw [isWordChar, isAlphabetic, isNumeric, if_neg hascii, if_neg hascii, hunderscore,
      inRanges_eq_false (halphabetic range hrange) hleast hgreatest,
      inRanges_eq_false (hnumeric range hrange) hleast hgreatest]
    rfl

theorem isWordChar_of_isDigit {c : Char} (h : c.isDigit = true) : isWordChar c = true := by
  have hascii : c.val < 128 := by
    simp only [Char.isDigit, Bool.and_eq_true, decide_eq_true_eq] at h
    exact UInt32.lt_of_le_of_lt h.2 (by decide)
  rw [isWordChar, isNumeric, if_pos hascii, h, Bool.or_true, Bool.true_or]

end Runbook.Text

namespace Runbook.Decimal

/-- An exponent ends in a digit. -/
theorem exists_last_of_exponent? {cs : List Char} {e : Int} (h : exponent? cs = some e) :
    ∃ d, cs.getLast? = some d ∧ d.isDigit = true := by
  have hdigits : ∀ {digits : List Char} {value : Int},
      (if (digits.isEmpty || !digits.all Char.isDigit) = true then none else some value) = some e →
        ∃ d, digits.getLast? = some d ∧ d.isDigit = true := by
    intro digits value hsome
    split at hsome
    · cases hsome
    · rename_i hnot
      simp only [Bool.or_eq_true, Bool.not_eq_true', not_or, Bool.not_eq_false] at hnot
      have hne : digits ≠ [] := fun hnil => hnot.1 (List.isEmpty_iff.mpr hnil)
      have hlast := List.getLast_mem hne
      exact ⟨_, List.getLast?_eq_some_getLast hne, List.all_eq_true.mp hnot.2 _ hlast⟩
  unfold exponent? at h
  split at h
  rename_i negative digits hsplit
  split at hsplit
  · cases hsplit
    obtain ⟨d, hd, hdigit⟩ := hdigits h
    exact ⟨d, by rw [List.getLast?_cons, hd]; rfl, hdigit⟩
  · cases hsplit
    obtain ⟨d, hd, hdigit⟩ := hdigits h
    exact ⟨d, by rw [List.getLast?_cons, hd]; rfl, hdigit⟩
  · cases hsplit
    exact hdigits h

/-- The last character is a digit, or the last one behind the digits at the start. -/
theorem isDigit_or_mem_dropWhile {cs : List Char} {d : Char} (h : d ∈ cs.getLast?) :
    d.isDigit = true ∨ d ∈ (cs.dropWhile Char.isDigit).getLast? := by
  rw [← List.takeWhile_append_dropWhile (p := Char.isDigit) (l := cs), List.getLast?_append] at h
  cases hlast : (cs.dropWhile Char.isDigit).getLast? with
  | none =>
    rw [hlast] at h
    have hmem := List.mem_of_getLast? h
    exact .inl (List.all_eq_true.mp List.all_takeWhile d hmem)
  | some x =>
    rw [hlast] at h
    exact .inr h

/-- What stands behind the digits and the point is an exponent, which ends in a digit. -/
theorem isDigit_of_exponent_part {whole fraction rest : List Char} {d : Char}
    {p : List Char × List Char × Int}
    (h : (match rest with
      | [] => some (whole, fraction, 0)
      | 'e' :: tail | 'E' :: tail => (exponent? tail).map fun e => (whole, fraction, e)
      | _ => none) = some p) (hd : d ∈ rest.getLast?) : d.isDigit = true := by
  have hexponent : ∀ {mark : Char} {tail : List Char},
      ((exponent? tail).map fun e => (whole, fraction, e)) = some p →
        d ∈ (mark :: tail).getLast? → d.isDigit = true := by
    intro mark tail hmap hmark
    obtain ⟨e, he, -⟩ := Option.map_eq_some_iff.mp hmap
    obtain ⟨last, htail, hdigit⟩ := exists_last_of_exponent? he
    rw [List.getLast?_cons, htail] at hmark
    cases hmark
    exact hdigit
  split at h
  · cases hd
  · exact hexponent h hd
  · exact hexponent h hd
  · cases h

/-- **A literal ends in a digit or in its point.** -/
theorem last_of_read? {negative : Bool} {cs : List Char} {x : Binary64}
    (h : read? negative cs = some x) {d : Char} (hd : d ∈ cs.getLast?) :
    d.isDigit = true ∨ d = '.' := by
  obtain ⟨p, hp, -⟩ := Option.map_eq_some_iff.mp h
  rcases isDigit_or_mem_dropWhile hd with hdigit | hlast
  · exact .inl hdigit
  · unfold parts? at hp
    dsimp only at hp
    split at hp
    · rename_i tail hpoint
      rw [hpoint, List.getLast?_cons] at hlast
      split at hp
      · cases hp
      · cases htail : tail.getLast? with
        | none =>
          rw [htail] at hlast
          cases hlast
          exact .inr rfl
        | some last =>
          rw [htail] at hlast
          cases hlast
          rcases isDigit_or_mem_dropWhile htail with hdigit | hlast
          · exact .inl hdigit
          · exact .inl (isDigit_of_exponent_part hp hlast)
    · split at hp
      · cases hp
      · exact .inl (isDigit_of_exponent_part hp hlast)

end Runbook.Decimal

namespace Runbook.Guard

/-! ## What a token goes on with -/

/-- An operand has to follow the token. -/
def Token.awaitsOperand : Token → Bool
  | .comparison _ => true
  | .bang => true
  | _ => false

/-- **The token swallows the character**, when that follows it at once. -/
def Token.swallows : Token → Char → Bool
  | .word _, c => Text.isWordChar c
  | .number _, c => isNumberChar c
  | _, _ => false

/-- The token goes on with the character, when that follows it at once: it swallows it, or both are
one sign. -/
def Token.goesOn : Token → Char → Bool
  | .comparison .less, c => c == '='
  | .comparison .greater, c => c == '='
  | .bang, c => c == '='
  | token, c => token.swallows c

/-- The token ends where the text begins. -/
def Token.Stops (token : Token) (back : List Char) : Prop :=
  ∀ c ∈ back.head?, token.goesOn c = false

theorem not_isNumberChar_of_isBlank {c : Char} (h : Text.isBlank c = true) :
    isNumberChar c = false := by
  refine Bool.eq_false_iff.mpr fun hc => ?_
  simp only [isNumberChar, Bool.or_eq_true, beq_iff_eq] at hc
  rcases hc with ((hdigit | rfl) | rfl) | rfl
  · have hword := Text.isWordChar_of_isDigit hdigit
    rw [Text.not_isWordChar_of_isBlank h] at hword
    cases hword
  · cases h
  · cases h
  · cases h

/-- No token goes on with a blank. -/
theorem Token.goesOn_of_isBlank (token : Token) {c : Char} (h : Text.isBlank c = true) :
    token.goesOn c = false := by
  have hequals : (c == '=') = false := by
    refine beq_false_of_ne ?_
    rintro rfl
    cases h
  unfold goesOn
  split
  · exact hequals
  · exact hequals
  · exact hequals
  · unfold swallows
    split
    · exact Text.not_isWordChar_of_isBlank h
    · exact not_isNumberChar_of_isBlank h
    · rfl

/-- What goes on with a token without being swallowed makes another sign of it, an equals sign. -/
theorem Token.awaitsOperand_of_goesOn {token : Token} {c : Char} (h : token.goesOn c = true)
    (hnot : token.swallows c = false) : token.awaitsOperand = true ∧ c = '=' := by
  unfold goesOn at h
  split at h
  · exact ⟨rfl, eq_of_beq h⟩
  · exact ⟨rfl, eq_of_beq h⟩
  · exact ⟨rfl, eq_of_beq h⟩
  · rw [hnot] at h
    cases h

namespace Piece

/-- **What a first character begins.** -/
inductive Beginning (c : Char) : Prop
  /-- A token of one character. -/
  | one (token : Token) (h : ∀ rest, next c rest = .one token c rest)
      (hstops : ∀ d, token.goesOn d = false)
  /-- A token of two characters, or the one that its first character is. -/
  | oneOrTwo (long : Token) (short : Except Fault Token) (d : Char)
      (h : ∀ rest, next c rest = .oneOrTwo long short c d rest)
      (hnot : Text.isBlank d = false)
      (hstops : ∀ e, long.goesOn e = false)
      (hshort : ∀ token, short = .ok token → (∀ e, token.goesOn e = (e == d)) ∧
        token.awaitsOperand = true ∧ long.awaitsOperand = true)
  /-- A text literal. -/
  | text (h : ∀ rest, next c rest = .text c rest)
  /-- A number, a word, or nothing. -/
  | other (h : ∀ rest, next c rest =
      if c.isDigit || (c == '.' && startsWithDigit rest) then .number c rest
      else if Text.isWordStart c then .word c rest
      else ⟨.error (.unexpectedCharacter c), [c], rest⟩)

theorem beginning (c : Char) : Beginning c := by
  by_cases hc : c ∈ ['=', '!', '<', '>', '&', '|', '-', '(', ')', '[', ']', '\x7b', '\x7d', ',',
      '\'', '"']
  · simp only [List.mem_cons, List.not_mem_nil, or_false] at hc
    rcases hc with rfl | rfl | rfl | rfl | rfl | rfl | rfl | rfl | rfl | rfl | rfl | rfl | rfl | rfl |
      rfl | rfl
    · exact .oneOrTwo _ _ _ (fun _ => rfl) rfl (fun _ => rfl) nofun
    · exact .oneOrTwo _ _ _ (fun _ => rfl) rfl (fun _ => rfl)
        (fun token h => by cases h; exact ⟨fun _ => rfl, rfl, rfl⟩)
    · exact .oneOrTwo _ _ _ (fun _ => rfl) rfl (fun _ => rfl)
        (fun token h => by cases h; exact ⟨fun _ => rfl, rfl, rfl⟩)
    · exact .oneOrTwo _ _ _ (fun _ => rfl) rfl (fun _ => rfl)
        (fun token h => by cases h; exact ⟨fun _ => rfl, rfl, rfl⟩)
    · exact .oneOrTwo _ _ _ (fun _ => rfl) rfl (fun _ => rfl) nofun
    · exact .oneOrTwo _ _ _ (fun _ => rfl) rfl (fun _ => rfl) nofun
    · exact .one _ (fun _ => rfl) (fun _ => rfl)
    · exact .one _ (fun _ => rfl) (fun _ => rfl)
    · exact .one _ (fun _ => rfl) (fun _ => rfl)
    · exact .one _ (fun _ => rfl) (fun _ => rfl)
    · exact .one _ (fun _ => rfl) (fun _ => rfl)
    · exact .one _ (fun _ => rfl) (fun _ => rfl)
    · exact .one _ (fun _ => rfl) (fun _ => rfl)
    · exact .one _ (fun _ => rfl) (fun _ => rfl)
    · exact .text fun _ => rfl
    · exact .text fun _ => rfl
  · refine .other fun rest => ?_
    unfold next
    dsimp only
    split <;> first | exact absurd (by decide) hc | rfl

/-! ## Pieces that what follows leaves alone -/

section Append
variable {back : List Char}

theorem oneOrTwo_append_of_stops {long token : Token} {short : Except Fault Token} {c d : Char}
    {rest : List Char}
    (hshort : ∀ token, short = .ok token → ∀ e, token.goesOn e = (e == d))
    (hok : (oneOrTwo long short c d rest).outcome = .ok token)
    (h : (oneOrTwo long short c d rest).rest ≠ [] ∨ token.Stops back) :
    oneOrTwo long short c d (rest ++ back) = (oneOrTwo long short c d rest).followedBy back := by
  cases rest with
  | cons e tail =>
    unfold oneOrTwo
    dsimp only [List.cons_append]
    split <;> rfl
  | nil =>
    cases back with
    | nil => rfl
    | cons e tail =>
      rcases h with hne | hstop
      · exact absurd rfl hne
      · have he : (e == d) = false := (hshort token hok e).symm.trans (hstop e rfl)
        exact if_neg (ne_of_beq_false he)

theorem exists_body_of_ok {quote : Char} {rest : List Char} {token : Token}
    (hok : (text quote rest).outcome = .ok token) : ∃ body, textBody quote rest = some body := by
  unfold text at hok
  split at hok
  · rename_i hbody
    exact ⟨_, hbody⟩
  · cases hok

/-- The number that a piece is, with its characters. -/
theorem exists_of_number_ok {c : Char} {rest : List Char} {token : Token}
    (hok : (number c rest).outcome = .ok token) :
    ∃ x, token = .number x ∧ Decimal.read? false (c :: (numberSpan false rest).1) = some x := by
  unfold number at hok
  dsimp only at hok
  split at hok
  · rename_i x hread
    cases hok
    exact ⟨x, rfl, hread⟩
  · cases hok

theorem number_rest (c : Char) (rest : List Char) :
    (number c rest).rest = (numberSpan false rest).2 := by
  unfold number
  dsimp only
  split <;> rfl

theorem number_taken (c : Char) (rest : List Char) :
    (number c rest).taken = c :: (numberSpan false rest).1 := by
  unfold number
  dsimp only
  split <;> rfl

/-- A number does not end in an exponent mark. -/
theorem not_endsInMark_of_read? {c : Char} {rest : List Char} {x : Binary64}
    (h : Decimal.read? false (c :: rest) = some x) : endsInMark false rest = false := by
  cases hlast : rest.getLast? with
  | none =>
    rw [List.getLast?_eq_none_iff.mp hlast]
    rfl
  | some d =>
    have hmem : d ∈ (c :: rest).getLast? := by
      rw [List.getLast?_cons, hlast]
      rfl
    rw [endsInMark_of_getLast? false hlast]
    rcases Decimal.last_of_read? h hmem with hdigit | rfl
    · rw [Bool.or_eq_false_iff]
      constructor <;> refine beq_false_of_ne ?_ <;> rintro rfl <;> cases hdigit
    · rfl

theorem number_append_of_stops {c : Char} {rest : List Char} {token : Token}
    (hok : (number c rest).outcome = .ok token)
    (h : (number c rest).rest ≠ [] ∨ token.Stops back) :
    number c (rest ++ back) = (number c rest).followedBy back := by
  obtain ⟨x, rfl, hread⟩ := exists_of_number_ok hok
  rw [number_rest] at h
  have hspan : numberSpan false (rest ++ back) =
      ((numberSpan false rest).1, (numberSpan false rest).2 ++ back) := by
    by_cases hrest : (numberSpan false rest).2 = []
    · have htaken : (numberSpan false rest).1 = rest := by
        have hsplit := append_numberSpan false rest
        rwa [hrest, List.append_nil] at hsplit
      rw [htaken] at hread
      refine numberSpan_append (.inr fun d hd => ?_)
      rw [not_endsInMark_of_read? hread, Bool.false_and, Bool.or_false]
      exact h.resolve_left (not_not_intro hrest) d hd
    · exact numberSpan_append (.inl hrest)
  unfold number
  rw [hspan]
  dsimp only
  split <;> rfl

/-- **A token is cut off before what it does not go on with**, and so it is before whatever follows,
if the text does not end with it. -/
theorem next_append_of_stops {c : Char} {rest : List Char} {token : Token}
    (hok : (next c rest).outcome = .ok token) (h : (next c rest).rest ≠ [] ∨ token.Stops back) :
    next c (rest ++ back) = (next c rest).followedBy back := by
  cases beginning c with
  | one sign hnext hstops => rw [hnext, hnext]; rfl
  | oneOrTwo long short d hnext hnot hstops hshort =>
    rw [hnext] at hok h
    rw [hnext, hnext]
    exact oneOrTwo_append_of_stops (fun token he => (hshort token he).1) hok h
  | text hnext =>
    rw [hnext] at hok
    obtain ⟨body, hbody⟩ := exists_body_of_ok hok
    rw [hnext, hnext]
    exact text_append hbody back
  | other hnext =>
    rw [hnext] at hok h
    rw [hnext, hnext]
    split at hok
    · rename_i hnumber
      -- A point that begins a number has its digit in the text already.
      have hnumber' : (c.isDigit || (c == '.' && startsWithDigit (rest ++ back))) = true := by
        cases rest with
        | cons d tail => exact hnumber
        | nil =>
          rw [startsWithDigit, Bool.and_false, Bool.or_false] at hnumber
          rw [hnumber, Bool.true_or]
      rw [if_pos hnumber] at h ⊢
      rw [if_pos hnumber']
      exact number_append_of_stops hok h
    · rename_i hnumber
      split at hok
      · rename_i hword
        have hpoint : (c == '.') = false := by
          refine beq_false_of_ne ?_
          rintro rfl
          exact absurd hword (by decide)
        have hdigit : c.isDigit = false := by
          cases hc : c.isDigit with
          | false => rfl
          | true => exact absurd (by rw [hc, Bool.true_or]) hnumber
        have hnumber' : ¬ (c.isDigit || (c == '.' && startsWithDigit (rest ++ back))) = true := by
          rw [hdigit, hpoint]
          exact Bool.false_ne_true
        rw [if_neg hnumber, if_pos hword] at h ⊢
        rw [if_neg hnumber', if_pos hword]
        cases hok
        exact word_append h
      · cases hok

end Append

/-- **A sign at the end of a text becomes another one**, which awaits an operand too, when an equals
sign follows at once. -/
theorem exists_joined {c d : Char} {rest : List Char} {token : Token}
    (h : next c rest = ⟨.ok token, c :: rest, []⟩) (hgo : token.goesOn d = true)
    (hnot : token.swallows d = false) (back : List Char) :
    ∃ long, long.awaitsOperand = true ∧
      next c (rest ++ d :: back) = ⟨.ok long, c :: (rest ++ [d]), back⟩ := by
  have hawaits := (Token.awaitsOperand_of_goesOn hgo hnot).1
  cases beginning c with
  | one sign hnext hstops =>
    rw [hnext] at h
    cases h
    rw [hstops] at hgo
    cases hgo
  | oneOrTwo long short e hnext hblank hstops hshort =>
    rw [hnext] at h
    cases rest with
    | nil =>
      have hsign : short = .ok token := congrArg outcome h
      obtain ⟨hgoes, -, hlong⟩ := hshort token hsign
      rw [hgoes] at hgo
      refine ⟨long, hlong, ?_⟩
      rw [hnext]
      exact if_pos (eq_of_beq hgo)
    | cons x tail =>
      unfold oneOrTwo at h
      dsimp only at h
      split at h
      · cases h
        rw [hstops] at hgo
        cases hgo
      · cases h
  | text hnext =>
    rw [hnext] at h
    unfold text at h
    split at h
    · cases h
      cases hawaits
    · cases h
  | other hnext =>
    have hok : (next c rest).outcome = .ok token := by rw [h]
    rw [hnext] at hok
    split at hok
    · obtain ⟨x, rfl, -⟩ := exists_of_number_ok hok
      cases hawaits
    · split at hok
      · cases hok
        cases hawaits
      · cases hok

/-! ## The last character of a token -/

/-- A text literal ends in its quote. -/
theorem last_of_textBody {quote : Char} {cs content taken tail : List Char}
    (h : textBody quote cs = some (content, taken, tail)) : taken.getLast? = some quote := by
  fun_induction textBody quote cs generalizing content taken tail with
  | case1 => cases h
  | case2 c rest ih =>
    obtain ⟨⟨x, y, z⟩, hx, he⟩ := Option.map_eq_some_iff.1 h
    cases he
    rw [List.getLast?_cons, List.getLast?_cons, ih hx]
    rfl
  | case3 => cases h
  | case4 => cases h; rfl
  | case5 c rest hpair hback hquote ih =>
    obtain ⟨⟨x, y, z⟩, hx, he⟩ := Option.map_eq_some_iff.1 h
    cases he
    rw [List.getLast?_cons, ih hx]
    rfl

theorem not_isBlank_of_isWordChar {c : Char} (h : Text.isWordChar c = true) :
    Text.isBlank c = false := by
  refine Bool.eq_false_iff.mpr fun hblank => ?_
  rw [Text.not_isWordChar_of_isBlank hblank] at h
  cases h

/-- **A token does not end in a blank.** -/
theorem not_isBlank_of_last {c d : Char} {rest : List Char} {token : Token}
    (hc : Text.isBlank c = false) (hok : (next c rest).outcome = .ok token)
    (hd : d ∈ (next c rest).taken.getLast?) : Text.isBlank d = false := by
  cases beginning c with
  | one sign hnext hstops =>
    rw [hnext] at hd
    cases hd
    exact hc
  | oneOrTwo long short e hnext hnot hstops hshort =>
    rw [hnext] at hd
    unfold oneOrTwo at hd
    split at hd
    · split at hd
      · rename_i he
        cases hd
        rw [he]
        exact hnot
      · cases hd
        exact hc
    · cases hd
      exact hc
  | text hnext =>
    rw [hnext] at hok hd
    unfold text at hok hd
    cases hbody : textBody c rest with
    | none =>
      rw [hbody] at hok
      cases hok
    | some body =>
      rw [hbody] at hd
      dsimp only at hd
      rw [List.getLast?_cons, last_of_textBody hbody] at hd
      cases hd
      exact hc
  | other hnext =>
    rw [hnext] at hok hd
    split at hok
    · rename_i hnumber
      rw [if_pos hnumber] at hd
      obtain ⟨x, rfl, hread⟩ := exists_of_number_ok hok
      rw [number_taken] at hd
      rcases Decimal.last_of_read? hread hd with hdigit | rfl
      · exact not_isBlank_of_isWordChar (Text.isWordChar_of_isDigit hdigit)
      · rfl
    · rename_i hnumber
      rw [if_neg hnumber] at hd
      split at hok
      · rename_i hword
        rw [if_pos hword] at hd
        rcases List.mem_cons.mp (List.mem_of_getLast? hd) with rfl | hmem
        · exact hc
        · exact not_isBlank_of_isWordChar (List.all_eq_true.mp List.all_takeWhile d hmem)
      · cases hok

end Piece

/-! ## Texts that are settled up to their last token -/

theorem cut_of_lexemesFrom {offset : Nat} {cs : List Char} {ls : List Lexeme}
    (h : lexemesFrom offset cs = .ok ls) : Cut cs (ls.map Lexeme.token) := by
  fun_induction lexemesFrom offset cs generalizing ls with
  | case1 offset =>
    cases h
    exact .nil
  | case2 offset c rest hc ih => exact (ih h).blank hc
  | case3 => cases h
  | case4 offset c rest hc piece token hp =>
    rename_i ih
    cases hrest : lexemesFrom (offset + byteLength piece.taken) piece.rest with
    | error fault =>
      rw [hrest] at h
      cases h
    | ok more =>
      rw [hrest] at h
      cases h
      intro offset'
      obtain ⟨ls, hls, htokens⟩ := ih hrest (offset' + byteLength piece.taken)
      refine ⟨⟨offset', token⟩ :: ls, ?_, congrArg (token :: ·) htokens⟩
      rw [lexemesFrom_cons, if_neg hc, hp]
      dsimp only
      rw [hls]
      rfl

theorem cut_cons_of_isBlank {c : Char} (hc : Text.isBlank c = true) {cs : List Char}
    {tokens : List Token} : Cut (c :: cs) tokens ↔ Cut cs tokens := by
  refine ⟨fun h => ?_, Cut.blank hc⟩
  obtain ⟨ls, hls, rfl⟩ := h 0
  rw [lexemesFrom_cons, if_pos hc] at hls
  exact cut_of_lexemesFrom hls

theorem cut_cons_of_ok {c : Char} (hc : Text.isBlank c = false) {rest : List Char} {token : Token}
    (hok : (Piece.next c rest).outcome = .ok token) {tokens : List Token} :
    Cut (c :: rest) tokens ↔ ∃ more, Cut (Piece.next c rest).rest more ∧ tokens = token :: more := by
  constructor
  · intro h
    obtain ⟨ls, hls, rfl⟩ := h 0
    rw [lexemesFrom_cons, if_neg (Bool.eq_false_iff.mp hc), hok] at hls
    dsimp only at hls
    cases hmore : lexemesFrom (0 + byteLength (Piece.next c rest).taken) (Piece.next c rest).rest with
    | error fault =>
      rw [hmore] at hls
      cases hls
    | ok more =>
      rw [hmore] at hls
      cases hls
      exact ⟨_, cut_of_lexemesFrom hmore, rfl⟩
  · rintro ⟨more, hmore, rfl⟩ offset
    obtain ⟨ls, hls, rfl⟩ := hmore (offset + byteLength (Piece.next c rest).taken)
    refine ⟨⟨offset, token⟩ :: ls, ?_, rfl⟩
    rw [lexemesFrom_cons, if_neg (Bool.eq_false_iff.mp hc), hok]
    dsimp only
    rw [hls]
    rfl

/-- **The end of a text**: nothing, or one token that reaches to the end. -/
inductive Ending : List Char → List Token → Prop
  | nothing : Ending [] []
  | token {c : Char} {rest : List Char} {token : Token} (hc : Text.isBlank c = false)
      (h : Piece.next c rest = ⟨.ok token, c :: rest, []⟩) : Ending (c :: rest) [token]

/-- **A text that is cut into tokens is settled up to its end**, whatever follows. -/
theorem exists_ending {offset : Nat} {cs : List Char} {ls : List Lexeme}
    (h : lexemesFrom offset cs = .ok ls) :
    ∃ first last ending, Ending last ending ∧ ls.map Lexeme.token = first ++ ending ∧ last <:+ cs ∧
      ∀ back all, Cut (cs ++ back) all ↔ ∃ more, Cut (last ++ back) more ∧ all = first ++ more := by
  fun_induction lexemesFrom offset cs generalizing ls with
  | case1 offset =>
    cases h
    exact ⟨[], [], [], .nothing, rfl, List.suffix_refl _, by simp⟩
  | case2 offset c rest hc ih =>
    obtain ⟨first, last, ending, hend, htokens, hsuffix, hcut⟩ := ih h
    refine ⟨first, last, ending, hend, htokens, hsuffix.trans (List.suffix_cons _ _), ?_⟩
    intro back all
    rw [List.cons_append, cut_cons_of_isBlank hc]
    exact hcut back all
  | case3 => cases h
  | case4 offset c rest hc piece token hp =>
    rename_i ih
    have hnot : Text.isBlank c = false := Bool.eq_false_iff.mpr hc
    have hdivides : piece.taken ++ piece.rest = c :: rest := Piece.taken_append_rest c rest
    cases hmore : lexemesFrom (offset + byteLength piece.taken) piece.rest with
    | error fault =>
      rw [hmore] at h
      cases h
    | ok more =>
      rw [hmore] at h
      cases h
      by_cases hrest : piece.rest = []
      · -- The token reaches to the end.
        have hwhole : Piece.next c rest = ⟨.ok token, c :: rest, []⟩ := by
          rw [hrest, List.append_nil] at hdivides
          rw [← hp, ← hdivides, ← hrest]
        rw [hrest, lexemesFrom_nil] at hmore
        cases hmore
        exact ⟨[], c :: rest, [token], .token hnot hwhole, rfl, List.suffix_refl _, by simp⟩
      · -- The token ends before the end, so it is the same whatever follows.
        obtain ⟨first, last, ending, hend, htokens, hsuffix, hcut⟩ := ih hmore
        refine ⟨token :: first, last, ending, hend, congrArg (token :: ·) htokens, ?_, ?_⟩
        · rw [← hdivides]
          exact hsuffix.trans (List.suffix_append _ _)
        · intro back all
          have hnext : Piece.next c (rest ++ back) = piece.followedBy back :=
            Piece.next_append_of_stops hp (.inl hrest)
          have hok : (Piece.next c (rest ++ back)).outcome = .ok token := by
            rw [hnext]
            exact hp
          rw [List.cons_append, cut_cons_of_ok hnot hok, hnext]
          show (∃ more, Cut (piece.rest ++ back) more ∧ all = token :: more) ↔ _
          constructor
          · rintro ⟨more, hmore, rfl⟩
            obtain ⟨tail, htail, rfl⟩ := (hcut back more).mp hmore
            exact ⟨tail, htail, rfl⟩
          · rintro ⟨tail, htail, rfl⟩
            exact ⟨first ++ tail, (hcut back _).mpr ⟨tail, htail, rfl⟩, rfl⟩

/-- The text does not touch what follows in its last token: it ends in a blank, or that token ends
there. -/
def Apart (front : List Char) (tokens : List Token) (back : List Char) : Prop :=
  ∀ token ∈ tokens.getLast?, ∀ c ∈ front.getLast?, Text.isBlank c = false → token.Stops back

theorem Ending.cut_append_iff {last : List Char} {ending : List Token} (h : Ending last ending)
    {back : List Char} (hstops : ∀ token ∈ ending, token.Stops back) {all : List Token} :
    Cut (last ++ back) all ↔ ∃ more, Cut back more ∧ all = ending ++ more := by
  cases h with
  | nothing => simp
  | @token c rest token hc h =>
    have hok : (Piece.next c rest).outcome = .ok token := by rw [h]
    have hnext := Piece.next_append_of_stops hok (.inr (hstops token List.mem_cons_self))
    have hok' : (Piece.next c (rest ++ back)).outcome = .ok token := by
      rw [hnext]
      exact hok
    rw [List.cons_append, cut_cons_of_ok hc hok', hnext, h]
    rfl

/-- A token at the end reaches to the last character, which is not blank. -/
theorem Ending.exists_last {front last : List Char} {ending : List Token} (h : Ending last ending)
    (hsuffix : last <:+ front) {token : Token} (htoken : token ∈ ending) :
    ending = [token] ∧ ∃ c ∈ front.getLast?, Text.isBlank c = false := by
  cases h with
  | nothing => cases htoken
  | @token c rest token hc h =>
    cases List.mem_singleton.mp htoken
    obtain ⟨first, rfl⟩ := hsuffix
    obtain ⟨d, hd⟩ : ∃ d, (c :: rest).getLast? = some d := ⟨_, List.getLast?_cons⟩
    refine ⟨rfl, d, ?_, ?_⟩
    · rw [List.getLast?_append, hd]
      rfl
    · have hok : (Piece.next c rest).outcome = .ok token := by rw [h]
      refine Piece.not_isBlank_of_last hc hok ?_
      rw [h]
      exact hd

/-- **Texts that are apart are cut into the tokens of both.** -/
theorem cut_append_iff {front back : List Char} {tokens : List Token} (hfront : Cut front tokens)
    (hapart : Apart front tokens back) {all : List Token} :
    Cut (front ++ back) all ↔ ∃ more, Cut back more ∧ all = tokens ++ more := by
  obtain ⟨ls, hls, rfl⟩ := hfront 0
  obtain ⟨first, last, ending, hend, htokens, hsuffix, hcut⟩ := exists_ending hls
  have hstops : ∀ token ∈ ending, token.Stops back := by
    intro token htoken
    obtain ⟨rfl, c, hc, hnot⟩ := hend.exists_last hsuffix htoken
    refine hapart token ?_ c hc hnot
    rw [htokens, List.getLast?_append]
    rfl
  rw [hcut, htokens]
  constructor
  · rintro ⟨more, hmore, rfl⟩
    obtain ⟨tail, htail, rfl⟩ := (hend.cut_append_iff hstops).mp hmore
    exact ⟨tail, htail, (List.append_assoc ..).symm⟩
  · rintro ⟨tail, htail, rfl⟩
    exact ⟨ending ++ tail, (hend.cut_append_iff hstops).mpr ⟨tail, htail, rfl⟩,
      List.append_assoc ..⟩

end Runbook.Guard
