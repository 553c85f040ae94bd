import Runbook.Proofs.Guard.Boundary

/-!
# Cutting a guard into tokens, look by look

The text of a guard can be cut by a loop over its characters, each of which is numbered by the byte
offset at which it begins (`Scan.look`): a look at the next character passes over it if it is blank,
and otherwise takes as many characters as its token has.  The loop comes to the lexemes of the text
(`Scan.Reached.exists_end`), and each look takes at least one character, right behind those that were
taken before it (`Scan.exists_takes`).  What is taken for a token is all that the token is read from: the
same characters alone are cut into it (`Piece.spells_taken`).
-/

namespace Runbook.Guard

/-! ## A token is spelled by its own characters -/

theorem textBody_taken {quote : Char} {cs content taken tail : List Char}
    (h : textBody quote cs = some (content, taken, tail)) :
    textBody quote taken = some (content, taken, []) := by
  fun_induction textBody quote cs generalizing content taken tail with
  | case1 => cases h
  | case2 c rest ih =>
    obtain ⟨⟨x, y, z⟩, hx, he⟩ := Option.map_eq_some_iff.1 h
    cases he
    rw [textBody, ih hx]
    rfl
  | case3 => cases h
  | case4 rest hpair hback =>
    cases h
    rw [textBody_of_ne_backslash hback, if_pos rfl]
  | case5 c rest hpair hback hquote ih =>
    obtain ⟨⟨x, y, z⟩, hx, he⟩ := Option.map_eq_some_iff.1 h
    cases he
    rw [textBody_of_ne_backslash hback, if_neg hquote, ih hx]
    rfl

theorem numberSpan_taken (afterMark : Bool) (cs : List Char) :
    numberSpan afterMark (numberSpan afterMark cs).1 = ((numberSpan afterMark cs).1, []) := by
  induction cs generalizing afterMark with
  | nil => rfl
  | cons c rest ih =>
    by_cases hc : (c.isDigit || c == '.' || c == 'e' || c == 'E' ||
        (afterMark && (c == '+' || c == '-'))) = true
    · rw [numberSpan, if_pos hc]
      dsimp only
      rw [numberSpan, if_pos hc, ih]
    · rw [numberSpan, if_neg hc]
      rfl

/-- A digit at the front belongs to the number. -/
theorem startsWithDigit_numberSpan {cs : List Char} (h : startsWithDigit cs = true) :
    startsWithDigit (numberSpan false cs).1 = true := by
  cases cs with
  | nil => cases h
  | cons c rest =>
    have hdigit : c.isDigit = true := h
    rw [numberSpan, if_pos (by simp [hdigit])]
    exact hdigit

/-- **The characters spell a token**: they are cut into it, and there is no blank before or behind
it. -/
structure Spells (span : List Char) (token : Token) : Prop where
  /-- They are cut into the token, wherever they stand. -/
  cut : Cut span [token]
  /-- The token begins with the first of them. -/
  first : ∀ c ∈ span.head?, Text.isBlank c = false
  /-- It ends with the last of them. -/
  last : ∀ c ∈ span.getLast?, Text.isBlank c = false

namespace Piece
variable {c : Char} {rest : List Char} {token : Token}

theorem oneOrTwo_taken {long : Token} {short : Except Fault Token} {d : Char}
    (hok : (oneOrTwo long short c d rest).outcome = .ok token) :
    ∃ more, (oneOrTwo long short c d rest).taken = c :: more ∧
      oneOrTwo long short c d more = ⟨.ok token, c :: more, []⟩ := by
  unfold oneOrTwo at hok ⊢
  split at hok
  · rename_i e tail
    split at hok
    · rename_i he
      cases hok
      refine ⟨[e], ?_, if_pos he⟩
      rw [if_pos he]
    · rename_i he
      refine ⟨[], ?_, congrArg (Piece.mk · [c] []) hok⟩
      rw [if_neg he]
  · exact ⟨[], rfl, congrArg (Piece.mk · [c] []) hok⟩

theorem text_taken (hok : (text c rest).outcome = .ok token) :
    ∃ more, (text c rest).taken = c :: more ∧ text c more = ⟨.ok token, c :: more, []⟩ := by
  obtain ⟨⟨content, taken, tail⟩, hbody⟩ := exists_body_of_ok hok
  unfold text at hok ⊢
  rw [hbody] at hok ⊢
  cases hok
  refine ⟨taken, rfl, ?_⟩
  rw [textBody_taken hbody]

theorem number_taken_alone (hok : (number c rest).outcome = .ok token) :
    number c (numberSpan false rest).1 = ⟨.ok token, c :: (numberSpan false rest).1, []⟩ := by
  obtain ⟨x, rfl, hread⟩ := exists_of_number_ok hok
  unfold number
  rw [numberSpan_taken]
  dsimp only
  rw [hread]

theorem word_taken_alone (c : Char) (rest : List Char) :
    word c (rest.takeWhile Text.isWordChar) = ⟨(word c rest).outcome, (word c rest).taken, []⟩ := by
  have hall : ∀ d ∈ rest.takeWhile Text.isWordChar, Text.isWordChar d = true := fun d hd =>
    List.all_eq_true.mp List.all_takeWhile d hd
  have htake : (rest.takeWhile Text.isWordChar ++ []).takeWhile Text.isWordChar =
      rest.takeWhile Text.isWordChar ++ [] := List.takeWhile_append_of_pos hall
  have hdrop : (rest.takeWhile Text.isWordChar ++ []).dropWhile Text.isWordChar = [] :=
    List.dropWhile_append_of_pos hall
  rw [List.append_nil] at htake hdrop
  unfold word
  rw [htake, hdrop]

/-- **A token is the same before the end of the text** as before what follows it. -/
theorem exists_next_taken (hok : (next c rest).outcome = .ok token) :
    ∃ more, (next c rest).taken = c :: more ∧ next c more = ⟨.ok token, c :: more, []⟩ := by
  cases beginning c with
  | one sign hnext hstops =>
    rw [hnext] at hok ⊢
    cases hok
    exact ⟨[], rfl, hnext []⟩
  | oneOrTwo long short d hnext hnot hstops hshort =>
    rw [hnext] at hok ⊢
    obtain ⟨more, htaken, halone⟩ := oneOrTwo_taken hok
    exact ⟨more, htaken, (hnext more).trans halone⟩
  | text hnext =>
    rw [hnext] at hok ⊢
    obtain ⟨more, htaken, halone⟩ := text_taken hok
    exact ⟨more, htaken, (hnext more).trans halone⟩
  | other hnext =>
    rw [hnext] at hok ⊢
    split at hok
    · rename_i hnumber
      rw [if_pos hnumber]
      refine ⟨_, number_taken c rest, ?_⟩
      have halone :
          (c.isDigit || (c == '.' && startsWithDigit (numberSpan false rest).1)) = true := by
        rcases Bool.or_eq_true_iff.mp hnumber with hdigit | hpoint
        · rw [hdigit, Bool.true_or]
        · obtain ⟨hpoint, hstarts⟩ := Bool.and_eq_true_iff.mp hpoint
          rw [hpoint, startsWithDigit_numberSpan hstarts, Bool.true_and, Bool.or_true]
      rw [hnext, if_pos halone]
      exact number_taken_alone hok
    · rename_i hnumber
      split at hok
      · rename_i hword
        rw [if_neg hnumber, if_pos hword]
        have hdigit : c.isDigit = false :=
          (Bool.or_eq_false_iff.mp (Bool.eq_false_iff.mpr hnumber)).1
        refine ⟨rest.takeWhile Text.isWordChar, rfl, ?_⟩
        rw [Cut.next_of_isWordStart hword hdigit, word_taken_alone]
        cases hok
        rfl
      · cases hok

/-- **The characters that are taken for a token spell it**, without what follows them. -/
theorem spells_taken (hc : Text.isBlank c = false) (hok : (next c rest).outcome = .ok token) :
    Spells (next c rest).taken token := by
  obtain ⟨more, htaken, halone⟩ := exists_next_taken hok
  refine ⟨?_, ?_, fun d hd => not_isBlank_of_last hc hok hd⟩
  · rw [htaken]
    exact .one hc halone
  · rw [htaken]
    intro d hd
    cases hd
    exact hc

theorem taken_prefix (c : Char) (rest : List Char) : (next c rest).taken <+: c :: rest :=
  ⟨(next c rest).rest, taken_append_rest c rest⟩

theorem taken_ne_nil (c : Char) (rest : List Char) : (next c rest).taken ≠ [] := by
  intro h
  have hlength := rest_length_lt c rest
  rw [← taken_append_rest c rest, h] at hlength
  exact absurd hlength (Nat.lt_irrefl _)

end Piece

/-! ## The loop -/

/-- The characters of a text whose first one stands at `offset`, each with its byte offset. -/
def placesFrom (offset : Nat) : List Char → List (Nat × Char)
  | [] => []
  | c :: rest => (offset, c) :: placesFrom (offset + c.utf8Size) rest

theorem snd_placesFrom (offset : Nat) (cs : List Char) :
    (placesFrom offset cs).map Prod.snd = cs := by
  induction cs generalizing offset with
  | nil => rfl
  | cons c rest ih => exact congrArg (c :: ·) (ih _)

theorem drop_placesFrom (offset n : Nat) (cs : List Char) :
    (placesFrom offset cs).drop n = placesFrom (offset + byteLength (cs.take n)) (cs.drop n) := by
  induction n generalizing offset cs with
  | zero => rfl
  | succ n ih =>
    cases cs with
    | nil => rfl
    | cons c rest =>
      rw [placesFrom, List.drop_succ_cons, ih, List.take_succ_cons, byteLength, Nat.add_assoc]
      rfl

/-- **How far the loop is.** -/
structure Scan where
  /-- How many characters it has taken. -/
  taken : Nat
  /-- The lexemes that it found in them. -/
  found : List Lexeme

/-- What a look comes to. -/
inductive Look
  /-- The loop ends. -/
  | ends (result : Except SyntaxError (List Lexeme))
  /-- The loop goes on from here. -/
  | goesOn (next : Scan)

namespace Scan
variable {source : String} {s next : Scan} {looks : Nat}

/-- Before the first look. -/
def start : Scan :=
  ⟨0, []⟩

/-- **A look** at the first character that was not taken yet. -/
def look (source : String) (s : Scan) : Look :=
  match (placesFrom 0 source.toList).drop s.taken with
  | [] => .ends (.ok s.found)
  | (offset, c) :: ahead =>
    if Text.isBlank c then .goesOn { s with taken := s.taken + 1 }
    else
      let piece := Piece.next c (ahead.map Prod.snd)
      match piece.outcome with
      | .error fault => .ends (.error ⟨offset, fault⟩)
      | .ok token => .goesOn ⟨s.taken + piece.taken.length, s.found ++ [⟨offset, token⟩]⟩

/-- **The loop comes here** after so many looks. -/
inductive Reached (source : String) : (looks : Nat) → Scan → Prop
  | start : Reached source 0 start
  | look {looks : Nat} {s next : Scan} (hs : Reached source looks s)
      (h : s.look source = .goesOn next) : Reached source (looks + 1) next

/-- The byte offset of the character that is looked at. -/
def offset (source : String) (s : Scan) : Nat :=
  byteLength (source.toList.take s.taken)

/-- The characters that were not taken yet. -/
def ahead (source : String) (s : Scan) : List Char :=
  source.toList.drop s.taken

/-! ### What a look can come to -/

/-- **The ways in which a look ends**, by the characters that stand ahead. -/
inductive Outcome (source : String) (s : Scan) : Look → Prop
  | finished (h : s.ahead source = []) : Outcome source s (.ends (.ok s.found))
  | blank {c : Char} {rest : List Char} (h : s.ahead source = c :: rest)
      (hc : Text.isBlank c = true) : Outcome source s (.goesOn ⟨s.taken + 1, s.found⟩)
  | fault {c : Char} {rest : List Char} {fault : Fault} (h : s.ahead source = c :: rest)
      (hc : Text.isBlank c = false) (herror : (Piece.next c rest).outcome = .error fault) :
      Outcome source s (.ends (.error ⟨s.offset source, fault⟩))
  | token {c : Char} {rest : List Char} {token : Token} (h : s.ahead source = c :: rest)
      (hc : Text.isBlank c = false) (hok : (Piece.next c rest).outcome = .ok token) :
      Outcome source s (.goesOn ⟨s.taken + (Piece.next c rest).taken.length,
        s.found ++ [⟨s.offset source, token⟩]⟩)

theorem outcome_look (source : String) (s : Scan) : Outcome source s (s.look source) := by
  have hplaces : (placesFrom 0 source.toList).drop s.taken =
      placesFrom (s.offset source) (s.ahead source) := by
    rw [drop_placesFrom, Nat.zero_add]
    rfl
  rw [look, hplaces]
  cases hahead : s.ahead source with
  | nil => exact .finished hahead
  | cons c rest =>
    rw [placesFrom]
    dsimp only
    rw [snd_placesFrom]
    split
    · rename_i hc
      exact .blank hahead hc
    · rename_i hc
      have hnot : Text.isBlank c = false := Bool.eq_false_iff.mpr hc
      split
      · rename_i herror
        exact .fault hahead hnot herror
      · rename_i hok
        exact .token hahead hnot hok

/-! ### What a look takes -/

/-- **A look takes these characters**, which are the next ones: a blank, which is passed over, or the
spelling of a token, which is found where they begin. -/
structure Takes (source : String) (s next : Scan) (span : List Char) : Prop where
  /-- It takes something. -/
  ne_nil : span ≠ []
  /-- They stand right behind the characters that were taken before. -/
  follows : span <+: s.ahead source
  /-- They are taken now, and no others. -/
  taken_eq : next.taken = s.taken + span.length
  /-- They are a blank or a token. -/
  blank_or_token : (∃ c, span = [c] ∧ Text.isBlank c = true ∧ next.found = s.found) ∨
    ∃ token, Spells span token ∧ next.found = s.found ++ [⟨s.offset source, token⟩]

theorem exists_takes (h : s.look source = .goesOn next) : ∃ span, s.Takes source next span := by
  have houtcome := outcome_look source s
  rw [h] at houtcome
  cases houtcome with
  | @blank c rest hahead hc =>
    refine ⟨[c], List.cons_ne_nil _ _, ?_, rfl, .inl ⟨c, rfl, hc, rfl⟩⟩
    rw [hahead]
    exact ⟨rest, rfl⟩
  | @token c rest token hahead hc hok =>
    refine ⟨(Piece.next c rest).taken, Piece.taken_ne_nil c rest, ?_, rfl,
      .inr ⟨token, Piece.spells_taken hc hok, rfl⟩⟩
    rw [hahead]
    exact Piece.taken_prefix c rest

/-! ### What the loop keeps -/

/-- Behind characters that are taken, the rest is ahead. -/
theorem ahead_and_offset (next : Scan) {span after : List Char}
    (h : s.ahead source = span ++ after) (htaken : next.taken = s.taken + span.length) :
    next.ahead source = after ∧ next.offset source = s.offset source + byteLength span := by
  constructor
  · have hdrop : next.ahead source = (s.ahead source).drop span.length := by
      rw [ahead, ahead, htaken, List.drop_drop]
    rw [hdrop, h, List.drop_left]
  · have hspan : (s.ahead source).take span.length = span := by rw [h, List.take_left]
    rw [offset, htaken, List.take_add, byteLength_append]
    exact congrArg (fun cs => s.offset source + byteLength cs) hspan

theorem Takes.taken_le {span : List Char} (h : s.Takes source next span)
    (hs : s.taken ≤ source.toList.length) :
    s.taken < next.taken ∧ next.taken ≤ source.toList.length := by
  have hpos : 0 < span.length := List.length_pos_iff.mpr h.ne_nil
  have hle : span.length ≤ source.toList.length - s.taken := by
    have hprefix := h.follows.length_le
    rwa [ahead, List.length_drop] at hprefix
  have htaken := h.taken_eq
  omega

/-- **Nothing is lost so far**: the lexemes of the text are those that were found and those of the
characters ahead. -/
structure Exact (source : String) (s : Scan) : Prop where
  /-- No more characters were taken than there are. -/
  le_length : s.taken ≤ source.toList.length
  /-- The other lexemes are ahead. -/
  goes_on : lexemes source = (lexemesFrom (s.offset source) (s.ahead source)).map (s.found ++ ·)

theorem exact_start (source : String) : start.Exact source := by
  refine ⟨Nat.zero_le _, ?_⟩
  show lexemesFrom 0 source.toList = (lexemesFrom 0 source.toList).map fun ls => ls
  cases lexemesFrom 0 source.toList <;> rfl

/-- **A look loses nothing.** -/
theorem Exact.look (hs : s.Exact source) (h : s.look source = .goesOn next) :
    next.Exact source := by
  obtain ⟨span, htakes⟩ := exists_takes h
  refine ⟨(htakes.taken_le hs.le_length).2, ?_⟩
  rw [hs.goes_on]
  have houtcome := outcome_look source s
  rw [h] at houtcome
  cases houtcome with
  | @blank c rest hahead hc =>
    have hsplit : s.ahead source = [c] ++ rest := hahead
    obtain ⟨hnext, hoffset⟩ := ahead_and_offset ⟨s.taken + 1, s.found⟩ hsplit rfl
    rw [hnext, hoffset, hahead, lexemesFrom_cons, if_pos hc]
    rfl
  | @token c rest token hahead hc hok =>
    have hsplit : s.ahead source = (Piece.next c rest).taken ++ (Piece.next c rest).rest := by
      rw [hahead, Piece.taken_append_rest]
    obtain ⟨hnext, hoffset⟩ := ahead_and_offset
      ⟨s.taken + (Piece.next c rest).taken.length, s.found ++ [⟨s.offset source, token⟩]⟩ hsplit rfl
    rw [hnext, hoffset, hahead, lexemesFrom_cons, if_neg (Bool.eq_false_iff.mp hc), hok]
    dsimp only
    cases lexemesFrom (s.offset source + byteLength (Piece.next c rest).taken)
        (Piece.next c rest).rest with
    | error e => rfl
    | ok more =>
      show Except.ok (s.found ++ ⟨s.offset source, token⟩ :: more) =
        Except.ok (s.found ++ [⟨s.offset source, token⟩] ++ more)
      rw [List.append_assoc]
      rfl

/-- **Where the loop ends, it has the lexemes of the text**, and it has taken all of the text unless
they cannot be told. -/
theorem Exact.result_eq (hs : s.Exact source) {result : Except SyntaxError (List Lexeme)}
    (h : s.look source = .ends result) :
    result = lexemes source ∧ (∀ ls, result = .ok ls → s.taken = source.toList.length) := by
  rw [hs.goes_on]
  have houtcome := outcome_look source s
  rw [h] at houtcome
  cases houtcome with
  | finished hahead =>
    refine ⟨?_, fun ls hls => ?_⟩
    · rw [hahead, lexemesFrom_nil]
      exact congrArg Except.ok (List.append_nil _).symm
    · exact Nat.le_antisymm hs.le_length (List.drop_eq_nil_iff.mp hahead)
  | @fault c rest fault hahead hc herror =>
    refine ⟨?_, nofun⟩
    rw [hahead, lexemesFrom_cons, if_neg (Bool.eq_false_iff.mp hc), herror]
    rfl

/-! ### The whole loop -/

theorem Reached.exact (h : Reached source looks s) : s.Exact source := by
  induction h with
  | start => exact exact_start source
  | look hs hlook ih => exact ih.look hlook

/-- No look is for nothing. -/
theorem Reached.looks_le (h : Reached source looks s) : looks ≤ s.taken := by
  induction h with
  | start => exact Nat.le_refl _
  | look hs hlook ih =>
    obtain ⟨span, htakes⟩ := exists_takes hlook
    exact Nat.lt_of_le_of_lt ih (htakes.taken_le hs.exact.le_length).1

/-- **The loop ends**, from wherever it is, after no more looks than there are characters. -/
theorem Reached.exists_end (h : Reached source looks s) :
    ∃ looks s, looks ≤ source.toList.length ∧ Reached source looks s ∧
      s.look source = .ends (lexemes source) := by
  -- Every look makes the characters ahead fewer.
  induction hn : source.toList.length - s.taken using Nat.strongRecOn generalizing looks s with
  | ind n ih =>
    subst hn
    cases hlook : s.look source with
    | ends result =>
      rw [(h.exact.result_eq hlook).1] at hlook
      exact ⟨looks, s, Nat.le_trans h.looks_le h.exact.le_length, h, hlook⟩
    | goesOn next =>
      obtain ⟨span, htakes⟩ := exists_takes hlook
      have hless := htakes.taken_le h.exact.le_length
      exact ih _ (by omega) (h.look hlook) rfl

end Scan

end Runbook.Guard
